import Blockmon.JsmnReader

/-!
# Readers and the JSON tokenizer

`At js pos rest` says what is left of a text at a position. With it the loops over the text are recursions on lists, and each pass of
`jsmn_parse` is one event of a reader, for which `Reader.parser` has the tokens.
-/

namespace Blockmon.Jsmn

/-! ## Positions -/

/-- The text from a position on. -/
def At (js : CString) (pos : Nat) (rest : List UInt8) : Prop := ∃ u, u.length = pos ∧ js.chars = u ++ rest

section At

variable {js : CString} {pos : Nat} {c : UInt8} {w rest : List UInt8}

/-- At the start the whole text is left. -/
theorem at_zero (js : CString) : At js 0 js.chars := ⟨[], rfl, rfl⟩

/-- Behind a part of the text. -/
theorem At.skip (h : At js pos (w ++ rest)) : At js (pos + w.length) rest := by
  obtain ⟨u, hu, hsplit⟩ := h
  refine ⟨u ++ w, ?_, ?_⟩
  · rw [List.length_append, hu]
  · rw [hsplit, List.append_assoc]

/-- Behind one character. -/
theorem At.next (h : At js pos (c :: rest)) : At js (pos + 1) rest := by
  have hskip : At js pos ([c] ++ rest) := h
  exact hskip.skip

/-- The next character is read. -/
theorem At.read (h : At js pos (c :: rest)) : js.at? pos = some c := by
  obtain ⟨u, hu, hsplit⟩ := h
  rw [CString.at?, hsplit, List.append_assoc, List.getElem?_append_right (by omega), hu, Nat.sub_self]
  rfl

/-- At the end a zero is read. -/
theorem At.read_nil (h : At js pos []) : js.at? pos = some 0 := by
  obtain ⟨u, hu, hsplit⟩ := h
  rw [CString.at?, hsplit, List.append_nil, List.getElem?_append_right (by omega), hu, Nat.sub_self]
  rfl

/-- No character of the text is a zero. -/
theorem At.ne_zero (h : At js pos (c :: rest)) : c ≠ 0 := by
  obtain ⟨u, hu, hsplit⟩ := h
  refine js.ne_zero c ?_
  rw [hsplit]
  exact List.mem_append_right u List.mem_cons_self

/-- The position counts what was read. -/
theorem At.length (h : At js pos rest) : pos + rest.length = js.chars.length := by
  obtain ⟨u, hu, hsplit⟩ := h
  rw [hsplit, List.length_append, hu]

/-- The parser has passes enough for what is left. -/
theorem At.lt_passes (h : At js pos rest) : rest.length < js.passes := by
  have hlen := h.length
  rw [CString.passes]
  omega

end At

/-! ## Words -/

section Words

variable {js : CString} {pos n : Nat} {w rest : List UInt8}

/-- The scan of a primitive runs over plain characters. -/
theorem scanPrimitive_plain (hw : ∀ c ∈ w, isPlain c = true) (hat : At js pos (w ++ rest)) :
    scanPrimitive js (n + w.length) pos = scanPrimitive js n (pos + w.length) := by
  induction w generalizing pos with
  | nil => rfl
  | cons c w ih =>
    have hplain := hw c List.mem_cons_self
    rw [isPlain, Bool.and_eq_true, Bool.not_eq_true', Bool.not_eq_true', Bool.or_eq_false_iff, decide_eq_false_iff_not,
      decide_eq_false_iff_not] at hplain
    obtain ⟨hends, hlow, hhigh⟩ := hplain
    rw [List.length_cons, ← Nat.add_assoc, scanPrimitive, hat.read, Option.bind_some, if_neg hat.ne_zero,
      if_neg (by rw [hends]; exact Bool.false_ne_true), if_neg (by rintro (h | h); exacts [hlow h, hhigh h]),
      ih (fun d hd => hw d (List.mem_cons_of_mem c hd)) hat.next, Nat.add_right_comm, Nat.add_assoc]

/-- A word that nothing goes on with. -/
theorem scanPrimitive_word (hw : ∀ c ∈ w, isPlain c = true) (hat : At js pos (w ++ rest)) (hapart : Apart rest) :
    scanPrimitive js js.passes pos = some (some (pos + w.length)) := by
  have hfuel : js.passes = js.passes - w.length - 1 + 1 + w.length := by
    have hlt := hat.lt_passes
    rw [List.length_append] at hlt
    omega
  rw [hfuel, scanPrimitive_plain hw hat, scanPrimitive]
  cases rest with
  | nil => rw [hat.skip.read_nil, Option.bind_some, if_pos rfl]
  | cons c rest => rw [hat.skip.read, Option.bind_some, if_neg hat.skip.ne_zero, if_pos (hapart c rfl)]

/-- A character that is not plain ends the scan of a primitive with an error. -/
theorem scanPrimitive_invalid {c : UInt8} (hw : ∀ c ∈ w, isPlain c = true) (hat : At js pos (w ++ c :: rest))
    (hends : endsPrimitive c = false) (hplain : isPlain c = false) : scanPrimitive js js.passes pos = some none := by
  have hfuel : js.passes = js.passes - w.length - 1 + 1 + w.length := by
    have hlt := hat.lt_passes
    rw [List.length_append] at hlt
    omega
  have hrange : c < 32 ∨ 127 ≤ c := by
    rw [isPlain, hends, Bool.not_false, Bool.true_and, Bool.not_eq_false', Bool.or_eq_true, decide_eq_true_iff, decide_eq_true_iff] at hplain
    exact hplain
  rw [hfuel, scanPrimitive_plain hw hat, scanPrimitive, hat.skip.read, Option.bind_some, if_neg hat.skip.ne_zero,
    if_neg (by rw [hends]; exact Bool.false_ne_true), if_pos hrange]

/-- A text starts with as many characters of a primitive as there are. -/
theorem split_plain (t : List UInt8) :
    ∃ w rest, t = w ++ rest ∧ (∀ c ∈ w, isPlain c = true) ∧ ∀ c ∈ rest.head?, isPlain c = false := by
  refine ⟨t.takeWhile isPlain, t.dropWhile isPlain, List.takeWhile_append_dropWhile.symm,
    fun c hc => List.all_eq_true.mp List.all_takeWhile c hc, ?_⟩
  intro c hc
  have h := List.head?_dropWhile_not isPlain t
  rw [Option.mem_def] at hc
  rw [hc] at h
  simpa using h

end Words

/-! ## Strings -/

section Strings

variable {js : CString} {pos n : Nat} {w rest : List UInt8}

/-- The scan of a string runs over its body. -/
theorem scanString_body (hw : IsBody w) (hat : At js pos (w ++ rest)) (hn : w.length ≤ n) :
    ∃ m, n ≤ m + w.length ∧ scanString js n pos = scanString js m (pos + w.length) := by
  induction hw generalizing pos n with
  | nil => exact ⟨n, Nat.le_refl n, rfl⟩
  | @plain c w hquote hbackslash hw ih =>
    obtain ⟨n, rfl⟩ : ∃ i, n = i + 1 := Nat.exists_eq_add_one.mpr (Nat.lt_of_lt_of_le (Nat.succ_pos _) hn)
    have hfuel : w.length ≤ n := Nat.le_of_succ_le_succ hn
    obtain ⟨m, hm, hscan⟩ := ih hat.next hfuel
    refine ⟨m, by rw [List.length_cons]; omega, ?_⟩
    rw [scanString, hat.read, Option.bind_some, if_neg hat.ne_zero, if_neg hquote, if_neg hbackslash, hscan, List.length_cons]
    congr 1
    omega
  | @escape e w he hw ih =>
    obtain ⟨n, rfl⟩ : ∃ i, n = i + 1 := Nat.exists_eq_add_one.mpr (Nat.lt_of_lt_of_le (Nat.succ_pos _) hn)
    have hfuel : w.length ≤ n := Nat.le_of_succ_le (Nat.le_of_succ_le_succ hn)
    obtain ⟨m, hm, hscan⟩ := ih hat.next.next hfuel
    refine ⟨m, by rw [List.length_cons, List.length_cons]; omega, ?_⟩
    rw [scanString, hat.read, Option.bind_some, if_neg hat.ne_zero, if_neg (by decide), if_pos rfl, hat.next.read, Option.bind_some,
      if_pos he, hscan, List.length_cons, List.length_cons]
    congr 1
    omega

/-- The scan of a string ends at the quote. -/
theorem scanString_closed (hw : IsBody w) (hat : At js pos (w ++ quote :: rest)) :
    scanString js js.passes pos = some (.success, pos + w.length) := by
  have hlt := hat.lt_passes
  rw [List.length_append, List.length_cons] at hlt
  obtain ⟨m, hm, hscan⟩ := scanString_body hw hat (n := js.passes) (by omega)
  obtain ⟨m, rfl⟩ : ∃ i, m = i + 1 := Nat.exists_eq_add_one.mpr (by omega)
  rw [hscan, scanString, hat.skip.read, Option.bind_some, if_neg (by decide), if_pos rfl]

/-- A string without its quote is not complete. -/
theorem scanString_unfinished (hw : IsBody w) (hat : At js pos w) : scanString js js.passes pos = some (.part, pos + w.length) := by
  have hlt := hat.lt_passes
  rw [← List.append_nil w] at hat
  obtain ⟨m, hm, hscan⟩ := scanString_body hw hat (n := js.passes) (by omega)
  obtain ⟨m, rfl⟩ : ∃ i, m = i + 1 := Nat.exists_eq_add_one.mpr (by omega)
  rw [hscan, scanString, hat.skip.read_nil, Option.bind_some, if_pos rfl]

/-- A backslash that no character behind it makes an escape. -/
theorem scanString_invalid (hw : IsBody w) (hat : At js pos (w ++ backslash :: rest)) (hrest : ∀ e ∈ rest.head?, isEscape e = false) :
    scanString js js.passes pos = some (.inval, pos + w.length) := by
  have hlt := hat.lt_passes
  rw [List.length_append, List.length_cons] at hlt
  obtain ⟨m, hm, hscan⟩ := scanString_body hw hat (n := js.passes) (by omega)
  obtain ⟨m, rfl⟩ : ∃ i, m = i + 1 := Nat.exists_eq_add_one.mpr (by omega)
  rw [hscan, scanString, hat.skip.read, Option.bind_some, if_neg (by decide), if_neg (by decide), if_pos rfl]
  cases rest with
  | nil => rw [hat.skip.next.read_nil, Option.bind_some, if_neg (by decide)]
  | cons e rest => rw [hat.skip.next.read, Option.bind_some, if_neg (by rw [hrest e rfl]; exact Bool.false_ne_true)]

/-- What may stand behind an opening quote. -/
theorem split_string (t : List UInt8) :
    (∃ w rest, IsBody w ∧ t = w ++ quote :: rest) ∨ IsBody t ∨
      ∃ w rest, IsBody w ∧ t = w ++ backslash :: rest ∧ ∀ e ∈ rest.head?, isEscape e = false := by
  induction hlen : t.length using Nat.strong_induction_on generalizing t with
  | h n ih =>
    subst hlen
    cases t with
    | nil => exact .inr (.inl .nil)
    | cons c t =>
      by_cases hquote : c = quote
      · exact .inl ⟨[], t, .nil, by rw [hquote]; rfl⟩
      by_cases hbackslash : c = backslash
      · subst hbackslash
        cases t with
        | nil => exact .inr (.inr ⟨[], [], .nil, rfl, fun e he => nomatch he⟩)
        | cons e t =>
          cases he : isEscape e with
          | false => exact .inr (.inr ⟨[], e :: t, .nil, rfl, fun d hd => by rw [← Option.some.inj hd, he]⟩)
          | true =>
            rcases ih t.length (by simp only [List.length_cons]; omega) t rfl with ⟨w, rest, hw, rfl⟩ | hw | ⟨w, rest, hw, rfl, hrest⟩
            · exact .inl ⟨_, rest, .escape he hw, rfl⟩
            · exact .inr (.inl (.escape he hw))
            · exact .inr (.inr ⟨_, rest, .escape he hw, rfl, hrest⟩)
      · rcases ih t.length (by simp only [List.length_cons]; omega) t rfl with ⟨w, rest, hw, rfl⟩ | hw | ⟨w, rest, hw, rfl, hrest⟩
        · exact .inl ⟨_, rest, .plain hquote hbackslash hw, rfl⟩
        · exact .inr (.inl (.plain hquote hbackslash hw))
        · exact .inr (.inr ⟨_, rest, .plain hquote hbackslash hw, rfl, hrest⟩)

end Strings

/-! ## The tokens of a reader -/

/-- The token of a span is closed. -/
theorem isOpen_token (s : Span) : s.token.isOpen = false := by
  have hstop : (s.stop : Int) ≠ -1 := by omega
  rw [Token.isOpen, decide_eq_false_iff_not]
  exact fun h => hstop h.2

namespace Parser

/-- The last open token does not depend on what comes after. -/
theorem lastOpen_append {a : List Token} (b : List Token) {n : Nat} (hn : n ≤ a.length) : lastOpen (a ++ b) n = lastOpen a n := by
  induction n with
  | zero => rfl
  | succ n ih => rw [lastOpen, lastOpen, List.getElem?_append_left hn, ih (Nat.le_of_succ_le hn)]

/-- Tokens of complete values are passed over. -/
theorem lastOpen_spans (a : List Token) (l : List Span) (b : List Token) :
    lastOpen (a ++ (l.map Span.token ++ b)) (a.length + l.length) = lastOpen a a.length := by
  induction l using List.reverseRecOn generalizing b with
  | nil => exact lastOpen_append b (Nat.le_refl _)
  | append_singleton l s ih =>
    have hget : (a ++ ((l ++ [s]).map Span.token ++ b))[a.length + l.length]? = some s.token := by
      rw [List.getElem?_append_right (Nat.le_add_right _ _), Nat.add_sub_cancel_left, List.map_append, List.append_assoc,
        List.getElem?_append_right (by rw [List.length_map]), List.length_map, Nat.sub_self]
      rfl
    rw [List.length_append, List.length_singleton, ← Nat.add_assoc, lastOpen, hget, Option.bind_some, if_neg (by rw [isOpen_token]; decide),
      List.map_append, List.append_assoc]
    exact ih _

end Parser

namespace Reader

/-- The last open token of frames is the one of the innermost frame. -/
theorem lastOpen_frames (fs : List Frame) (b : List Token) :
    Parser.lastOpen (frameTokens fs ++ b) (frameTokens fs).length = some (super fs) := by
  cases fs with
  | nil => rfl
  | cons f fs =>
    have hstart : (f.start : Int) ≠ -1 := by omega
    have hopen : f.token.isOpen = true := by
      rw [Frame.token, Token.isOpen, decide_eq_true_iff]
      exact ⟨hstart, rfl⟩
    rw [frameTokens, ← List.append_assoc, List.length_append, List.length_singleton, Parser.lastOpen, List.append_assoc,
      List.getElem?_append_right (Nat.le_refl _), Nat.sub_self, List.singleton_append, List.getElem?_cons_zero, Option.bind_some, if_pos hopen]
    rfl

/-- The last open token of a reader. -/
theorem lastOpen_tokens (r : Reader) (b : List Token) : Parser.lastOpen (r.tokens ++ b) r.tokens.length = some (super r.frames) := by
  rw [tokens, List.length_append, List.length_map, List.append_assoc, Parser.lastOpen_spans]
  have h := lastOpen_frames r.frames []
  rwa [List.append_nil] at h

/-- A token is taken where there is room. -/
theorem allocToken_ok (r : Reader) (k : Nat) : (r.parser (k + 1)).allocToken = some (r.tokens.length, ⟨r.pos, r.tokens.length + 1,
    superOf r.frames, r.tokens ++ unused (k + 1)⟩) := by
  have hlen : (r.tokens ++ unused (k + 1)).length - r.tokens.length = k + 1 := by
    rw [List.length_append, unused, List.length_replicate, Nat.add_sub_cancel_left]
  have hfirst : (r.tokens ++ unused (k + 1))[r.tokens.length]? = some (fillToken .primitive (-1) (-1)) := by
    rw [List.getElem?_append_right (Nat.le_refl _), Nat.sub_self]
    rfl
  rw [Parser.allocToken, parser]
  dsimp only
  rw [hlen, List.range'_succ, List.find?_cons_of_pos (by rw [hfirst]; rfl)]
  rfl

/-- Without room no token is taken. -/
theorem allocToken_nomem (r : Reader) : (r.parser 0).allocToken = none := by
  have hlen : (r.tokens ++ unused 0).length - r.tokens.length = 0 := by
    rw [unused, List.replicate_zero, List.append_nil, Nat.sub_self]
  rw [Parser.allocToken, parser]
  dsimp only
  rw [hlen]
  rfl

/-- Counting adds no tokens. -/
theorem length_frameTokens_count (n : Nat) (fs : List Frame) : (frameTokens (count n fs)).length = (frameTokens fs).length := by
  cases fs with
  | nil => rfl
  | cons f fs =>
    rw [count, frameTokens, frameTokens, List.length_append, List.length_append, List.length_append, List.length_append]
    rfl

/-- Counting changes no parent. -/
theorem super_count (n : Nat) (fs : List Frame) : super (count n fs) = super fs := by
  cases fs with
  | nil => rfl
  | cons f fs => rfl

/-- The bracket that is open last counts a value, whatever stands behind it. -/
theorem countInSuper_frames (fs : List Frame) (pos n : Nat) (b : List Token) :
    (Parser.mk pos n (superOf fs) (frameTokens fs ++ b)).countInSuper = some ⟨pos, n, superOf fs, frameTokens (count 1 fs) ++ b⟩ := by
  cases fs with
  | nil => rfl
  | cons f fs =>
    have hsuper : superOf (f :: fs) = ((frameTokens fs ++ f.before.map Span.token).length : Nat) := rfl
    have htokens : frameTokens (f :: fs) ++ b = (frameTokens fs ++ f.before.map Span.token) ++ f.token :: b := by
      rw [frameTokens, ← List.append_assoc, List.append_assoc, List.singleton_append]
    have htoken : (Parser.mk pos n (superOf (f :: fs)) (frameTokens (f :: fs) ++ b)).token? (superOf (f :: fs)) = some f.token := by
      rw [Parser.token?, if_neg (by rw [hsuper]; omega)]
      dsimp only
      rw [hsuper, Int.toNat_natCast, htokens, List.getElem?_append_right (Nat.le_refl _), Nat.sub_self]
      rfl
    rw [Parser.countInSuper, if_neg (by dsimp only; rw [hsuper]; omega), htoken, Option.map_some]
    dsimp only
    rw [hsuper, Int.toNat_natCast, htokens, List.set_append_right _ _ (Nat.le_refl _), Nat.sub_self, List.set_cons_zero, count, frameTokens,
      ← List.append_assoc, List.append_assoc, List.append_assoc, List.singleton_append, List.append_assoc]
    rfl

/-- The parser after a string or a primitive. -/
theorem parser_leaf (r : Reader) (s : Span) (pos k : Nat) : (r.leaf s pos).parser k
    = ⟨pos, r.tokens.length + 1, superOf r.frames, frameTokens (count 1 r.frames) ++ (r.last.map Span.token ++ s.token :: unused k)⟩ := by
  have htokens : (r.leaf s pos).tokens = frameTokens (count 1 r.frames) ++ (r.last.map Span.token ++ [s.token]) := by
    rw [tokens, leaf, List.map_append]
    rfl
  have hlen : (r.leaf s pos).tokens.length = r.tokens.length + 1 := by
    rw [htokens, tokens, List.length_append, List.length_append, List.length_append, length_frameTokens_count, List.length_singleton,
      Nat.add_assoc]
  rw [parser, hlen, htokens, leaf, superOf, super_count, List.append_assoc, List.append_assoc, List.singleton_append]
  rfl

/-- A value that takes a token. -/
theorem takeToken_ok (r : Reader) (k : Nat) (type : JsmnType) (start stop pos : Nat) :
    Parser.counting ((r.parser (k + 1)).takeToken type start stop pos) = some (.success, (r.leaf ⟨type, start, stop, 0⟩ pos).parser k) := by
  have hset : (r.tokens ++ unused (k + 1)).set r.tokens.length (fillToken type start stop)
      = frameTokens r.frames ++ (r.last.map Span.token ++ (Span.mk type start stop 0).token :: unused k) := by
    rw [List.set_append_right _ _ (Nat.le_refl _), Nat.sub_self, tokens, List.append_assoc]
    rfl
  rw [Parser.takeToken, allocToken_ok, Option.elim_some, Parser.counting, if_pos rfl, hset, countInSuper_frames, parser_leaf]
  rfl

/-- Without room a string or a primitive fails. -/
theorem takeToken_nomem (r : Reader) (type : JsmnType) (start stop pos : Nat) :
    Parser.counting ((r.parser 0).takeToken type start stop pos) = some (.nomem, r.parser 0) := by
  rw [Parser.takeToken, allocToken_nomem]
  rfl

/-- An opening bracket enters a frame. -/
theorem openToken_ok (r : Reader) (k : Nat) (kind : Kind) :
    (r.parser (k + 1)).openToken kind.type = some (.success, (r.enter kind r.pos).parser k) := by
  have htokens : r.tokens ++ unused (k + 1)
      = frameTokens r.frames ++ (r.last.map Span.token ++ fillToken .primitive (-1) (-1) :: unused k) := by
    rw [tokens, List.append_assoc]
    rfl
  have hplace : r.tokens.length = (frameTokens (count 1 r.frames) ++ r.last.map Span.token).length := by
    rw [tokens, List.length_append, List.length_append, length_frameTokens_count]
  have hopened : (r.enter kind r.pos).tokens
      = frameTokens (count 1 r.frames) ++ r.last.map Span.token ++ [Frame.token ⟨r.last, kind, r.pos, 0⟩] := by
    rw [tokens, enter, frameTokens, List.map_nil, List.append_nil, List.append_assoc]
  have hentered : (r.enter kind r.pos).parser k = ⟨r.pos, r.tokens.length + 1, (r.tokens.length : Nat),
      frameTokens (count 1 r.frames) ++ r.last.map Span.token ++ Frame.token ⟨r.last, kind, r.pos, 0⟩ :: unused k⟩ := by
    rw [parser, hopened, List.length_append, ← hplace, List.length_singleton, List.append_assoc _ [_], enter, superOf, super, ← hplace]
    rfl
  have hback : ((r.tokens.length + 1 : Nat) : Int) - 1 = (r.tokens.length : Nat) := by omega
  rw [Parser.openToken, allocToken_ok, Option.elim_some, htokens, countInSuper_frames, Option.bind_some, ← List.append_assoc, hentered]
  dsimp only
  rw [hback, hplace, List.getElem?_append_right (Nat.le_refl _), Nat.sub_self, List.getElem?_cons_zero, Option.map_some,
    List.set_append_right _ _ (Nat.le_refl _), Nat.sub_self, List.set_cons_zero]
  rfl

/-- Without room an opening bracket fails. -/
theorem openToken_nomem (r : Reader) (type : JsmnType) : (r.parser 0).openToken type = some (.nomem, r.parser 0) := by
  rw [Parser.openToken, allocToken_nomem]
  rfl

/-- The kinds of brackets have different types. -/
theorem type_inj {k k' : Kind} (h : k.type = k'.type) : k = k' := by
  cases k <;> cases k' <;> first | rfl | cases h

/-- The last bracket that is open, in the array. -/
theorem tokens_frame {r : Reader} {f : Frame} {fs : List Frame} (hframes : r.frames = f :: fs) (k : Nat) :
    r.tokens ++ unused k = (frameTokens fs ++ f.before.map Span.token) ++ f.token :: (r.last.map Span.token ++ unused k) := by
  rw [tokens, hframes, frameTokens]
  simp only [List.append_assoc, List.cons_append, List.nil_append]

/-- A closing bracket without a frame is invalid. -/
theorem closeToken_nil {r : Reader} (hframes : r.frames = []) (k : Nat) (type : JsmnType) :
    (r.parser k).closeToken type = some (.inval, r.parser k) := by
  rw [Parser.closeToken]
  show ((Parser.lastOpen (r.tokens ++ unused k) r.tokens.length).bind _) = _
  rw [lastOpen_tokens, hframes]
  rfl

/-- A closing bracket of the other kind is invalid. -/
theorem closeToken_other {r : Reader} {f : Frame} {fs : List Frame} (hframes : r.frames = f :: fs) {kind : Kind} (hkind : f.kind ≠ kind) (k : Nat) :
    (r.parser k).closeToken kind.type = some (.inval, r.parser k) := by
  have hget : (r.parser k).tokens[(frameTokens fs ++ f.before.map Span.token).length]? = some f.token := by
    show (r.tokens ++ unused k)[_]? = _
    rw [tokens_frame hframes, List.getElem?_append_right (Nat.le_refl _), Nat.sub_self, List.getElem?_cons_zero]
  rw [Parser.closeToken]
  show ((Parser.lastOpen (r.tokens ++ unused k) r.tokens.length).bind _) = _
  rw [lastOpen_tokens, hframes, super, Option.bind_some, Option.elim_some, hget, Option.bind_some]
  exact if_pos fun h => hkind (type_inj h)

/-- A closing bracket leaves its frame. -/
theorem closeToken_ok {r : Reader} {f : Frame} {fs : List Frame} (hframes : r.frames = f :: fs) (k : Nat) :
    (r.parser k).closeToken f.kind.type = some (.success, (r.leave f r.pos).parser k) := by
  have hget : (r.parser k).tokens[(frameTokens fs ++ f.before.map Span.token).length]? = some f.token := by
    show (r.tokens ++ unused k)[_]? = _
    rw [tokens_frame hframes, List.getElem?_append_right (Nat.le_refl _), Nat.sub_self, List.getElem?_cons_zero]
  have hset : (r.parser k).tokens.set (frameTokens fs ++ f.before.map Span.token).length { f.token with stop := (r.parser k).pos + 1 }
      = frameTokens fs ++ ((f.before ++ [Span.mk f.kind.type f.start (r.pos + 1) f.size]).map Span.token ++ (r.last.map Span.token ++ unused k)) := by
    show (r.tokens ++ unused k).set _ _ = _
    rw [tokens_frame hframes, List.set_append_right _ _ (Nat.le_refl _), Nat.sub_self, List.set_cons_zero, List.map_append,
      List.append_assoc, List.append_assoc]
    rfl
  have hplace : (frameTokens fs ++ f.before.map Span.token).length + 1
      = (frameTokens fs).length + (f.before ++ [Span.mk f.kind.type f.start (r.pos + 1) f.size]).length := by
    rw [List.length_append, List.length_append, List.length_map, List.length_singleton, Nat.add_assoc]
  have hsuper : Parser.lastOpen (frameTokens fs) (frameTokens fs).length = some (super fs) := by
    have h := lastOpen_frames fs []
    rwa [List.append_nil] at h
  have hleave : (r.leave f r.pos).tokens ++ unused k = frameTokens fs
      ++ ((f.before ++ [Span.mk f.kind.type f.start (r.pos + 1) f.size]).map Span.token ++ (r.last.map Span.token ++ unused k)) := by
    rw [tokens, leave, hframes]
    simp only [List.tail_cons, List.map_append, List.map_cons, List.append_assoc, List.cons_append, List.nil_append, List.map_nil]
  have hlen : (r.leave f r.pos).tokens.length = r.tokens.length := by
    rw [tokens, tokens, leave, hframes, frameTokens]
    simp only [List.tail_cons, List.map_append, List.map_cons, List.length_append, List.length_cons, List.length_map, List.length_nil]
    omega
  have hleft : (r.leave f r.pos).parser k = ⟨r.pos, r.tokens.length, superOf fs, (r.leave f r.pos).tokens ++ unused k⟩ := by
    rw [parser, hlen]
    dsimp only [leave]
    rw [hframes, List.tail_cons]
  rw [Parser.closeToken, hleft, hleave]
  show ((Parser.lastOpen (r.tokens ++ unused k) r.tokens.length).bind _) = _
  rw [lastOpen_tokens, hframes, super, Option.bind_some, Option.elim_some, hget, Option.bind_some, if_neg (fun h => h rfl)]
  dsimp only
  rw [hset, hplace, Parser.lastOpen_spans, hsuper, Option.map_some]
  rfl

end Reader

/-! ## Passes of the loop -/

/-- A blank ends a primitive, and is no bracket and no quote. -/
theorem isBlank_spec {c : UInt8} (h : Parser.isBlank c = true) :
    endsPrimitive c = true ∧ c ≠ 0x7B ∧ c ≠ 0x5B ∧ c ≠ 0x7D ∧ c ≠ 0x5D ∧ c ≠ quote := by
  rw [Parser.isBlank, List.contains_iff_mem] at h
  simp only [List.mem_cons, List.not_mem_nil, or_false] at h
  rcases h with rfl | rfl | rfl | rfl | rfl | rfl <;> decide

/-- The characters at which a primitive ends. -/
theorem endsPrimitive_cases {c : UInt8} (h : endsPrimitive c = true) : Parser.isBlank c = true ∨ ∃ k : Kind, c = k.closing := by
  rw [endsPrimitive, List.contains_iff_mem] at h
  simp only [List.mem_cons, List.not_mem_nil, or_false] at h
  rcases h with rfl | rfl | rfl | rfl | rfl | rfl | rfl | rfl
  · exact .inl (by decide)
  · exact .inl (by decide)
  · exact .inl (by decide)
  · exact .inl (by decide)
  · exact .inl (by decide)
  · exact .inl (by decide)
  · exact .inr ⟨.array, rfl⟩
  · exact .inr ⟨.object, rfl⟩

/-- A closing bracket ends a primitive. -/
theorem endsPrimitive_closing (k : Kind) : endsPrimitive k.closing = true := by
  cases k <;> decide

/-- A character with which no bracket, string or blank starts. -/
def Other (c : UInt8) : Prop := c ≠ 0x7B ∧ c ≠ 0x5B ∧ c ≠ quote ∧ endsPrimitive c = false

/-- A word begins with a character of no other meaning. -/
theorem IsWord.other {c : UInt8} {w : List UInt8} (h : IsWord (c :: w)) : Other c := by
  obtain ⟨hobject, harray, hquote⟩ := h.head c rfl
  have hplain := h.plain c List.mem_cons_self
  rw [isPlain, Bool.and_eq_true, Bool.not_eq_true'] at hplain
  exact ⟨hobject, harray, hquote, hplain.1⟩

section Branches

variable {js : CString} {c : UInt8} {p : Parser}

/-- An opening bracket opens a token. -/
theorem parseChar_opening (k : Kind) : p.parseChar js k.opening = p.openToken k.type := by
  cases k <;> rfl

/-- A closing bracket closes a token. -/
theorem parseChar_closing (k : Kind) : p.parseChar js k.closing = p.closeToken k.type := by
  cases k <;> rfl

/-- A quote begins a string. -/
theorem parseChar_quote : p.parseChar js quote = (p.parseString js).bind Parser.counting := rfl

/-- A blank is passed over. -/
theorem parseChar_blank (h : Parser.isBlank c = true) : p.parseChar js c = some (.success, p) := by
  obtain ⟨-, h1, h2, h3, h4, h5⟩ := isBlank_spec h
  rw [Parser.parseChar, if_neg (by rintro (h | h); exacts [h1 h, h2 h]), if_neg (by rintro (h | h); exacts [h3 h, h4 h]), if_neg h5, if_pos h]

/-- Any other character begins a primitive. -/
theorem parseChar_other (h : Other c) : p.parseChar js c = (p.parsePrimitive js).bind Parser.counting := by
  obtain ⟨h1, h2, hquote, hends⟩ := h
  have hopen : ∀ d, endsPrimitive d = true → c ≠ d := by
    rintro d hd rfl
    rw [hends] at hd
    cases hd
  have hblank : Parser.isBlank c ≠ true := fun hblank => by
    rw [(isBlank_spec hblank).1] at hends
    cases hends
  rw [Parser.parseChar, if_neg (by rintro (h | h); exacts [h1 h, h2 h]),
    if_neg (by rintro (h | h); exacts [hopen 0x7D (by decide) h, hopen 0x5D (by decide) h]), if_neg hquote, if_neg hblank]

/-- One pass of the loop. -/
theorem parseLoop_char {rest : List UInt8} (hat : At js p.pos (c :: rest)) (n : Nat) :
    Parser.parseLoop js (n + 1) p = (p.parseChar js c).bind fun r =>
      if r.1 = .success then Parser.parseLoop js n { r.2 with pos := r.2.pos + 1 } else some r := by
  rw [Parser.parseLoop, hat.read, Option.bind_some, if_neg hat.ne_zero]

end Branches

namespace Event

/-- An event is as long as its characters. -/
theorem pos_step {r r' : Reader} {e : Event} (h : r.step e = some r') : r'.pos = r.pos + e.chars.length := by
  cases e with
  | blank c =>
    cases h
    rfl
  | word w =>
    cases h
    rfl
  | str w =>
    cases h
    simp only [Reader.leaf, chars, List.length_append, List.length_cons, List.length_nil]
    omega
  | opening k =>
    cases h
    rfl
  | closing k =>
    rw [Reader.step] at h
    cases hf : r.frames.head? with
    | none =>
      rw [hf] at h
      cases h
    | some f =>
      rw [hf, Option.bind_some] at h
      split at h
      · cases h
        rfl
      · cases h

/-- An event has a character. -/
theorem chars_ne_nil (e : Event) : e.chars ≠ [] := by
  cases e with
  | word w => exact w.property.ne_nil
  | blank c => exact List.cons_ne_nil _ _
  | str w => exact List.cons_ne_nil _ _
  | opening k => exact List.cons_ne_nil _ _
  | closing k => exact List.cons_ne_nil _ _

end Event

section Passes

variable {js : CString} {r r' : Reader} {e : Event} {rest : List UInt8}

/-- A pass of the loop is an event, if there is a token for it. -/
theorem parseLoop_event (hat : At js r.pos (e.chars ++ rest)) (hapart : e.isWord = true → Apart rest) (hstep : r.step e = some r') (n k : Nat) :
    Parser.parseLoop js (n + 1) (r.parser (k + e.tokens)) = Parser.parseLoop js n (r'.parser k) := by
  cases e with
  | blank c =>
    cases hstep
    rw [parseLoop_char hat, parseChar_blank c.property]
    rfl
  | word w =>
    cases hstep
    obtain ⟨w, hw⟩ := w
    cases w with
    | nil => exact absurd rfl hw.ne_nil
    | cons c w =>
      have hscan := scanPrimitive_word hw.plain hat (hapart rfl)
      have hback : r.pos + (c :: w).length - 1 + 1 = r.pos + (c :: w).length := by
        rw [List.length_cons]
        omega
      rw [parseLoop_char hat, parseChar_other hw.other, Parser.parsePrimitive]
      show ((Option.map _ (scanPrimitive js js.passes r.pos)).bind _).bind _ = _
      rw [hscan, Option.map_some, Option.elim_some, Option.bind_some, Event.tokens, Reader.takeToken_ok, Option.bind_some, if_pos rfl]
      show Parser.parseLoop js n ((r.leaf _ (r.pos + (c :: w).length - 1 + 1)).parser k) = _
      rw [hback]
      rfl
  | str w =>
    cases hstep
    have hquote : At js r.pos (quote :: (w.val ++ quote :: rest)) := by
      simp only [Event.chars, List.cons_append, List.append_assoc, List.nil_append] at hat
      exact hat
    have hscan := scanString_closed w.property hquote.next
    rw [parseLoop_char hquote, parseChar_quote, Parser.parseString]
    show ((Option.map _ (scanString js js.passes (r.pos + 1))).bind _).bind _ = _
    rw [hscan, Option.map_some, if_pos rfl, Option.bind_some, Event.tokens]
    show (Parser.counting ((r.parser (k + 1)).takeToken _ (r.pos + 1) _ _)).bind _ = _
    rw [Reader.takeToken_ok, Option.bind_some, if_pos rfl]
    rfl
  | opening kind =>
    cases hstep
    rw [parseLoop_char hat, parseChar_opening, Event.tokens, Reader.openToken_ok, Option.bind_some, if_pos rfl]
    rfl
  | closing kind =>
    rw [Reader.step] at hstep
    cases hframes : r.frames with
    | nil =>
      rw [hframes] at hstep
      cases hstep
    | cons f fs =>
      rw [hframes, List.head?_cons, Option.bind_some] at hstep
      split at hstep
      · next hkind =>
        cases hstep
        subst hkind
        rw [parseLoop_char hat, parseChar_closing, Event.tokens, Nat.add_zero, Reader.closeToken_ok hframes, Option.bind_some, if_pos rfl]
        rfl
      · cases hstep

/-- There is no token left for an event that needs one. -/
theorem parseLoop_nomem (hat : At js r.pos (e.chars ++ rest)) (hapart : e.isWord = true → Apart rest) (hneeds : e.tokens = 1) (n : Nat) :
    Parser.parseLoop js (n + 1) (r.parser 0) = some (.nomem, r.parser 0) := by
  cases e with
  | blank c => cases hneeds
  | closing k => cases hneeds
  | opening k =>
    rw [parseLoop_char hat, parseChar_opening, Reader.openToken_nomem]
    rfl
  | word w =>
    obtain ⟨w, hw⟩ := w
    cases w with
    | nil => exact absurd rfl hw.ne_nil
    | cons c w =>
      have hscan := scanPrimitive_word hw.plain hat (hapart rfl)
      rw [parseLoop_char hat, parseChar_other hw.other, Parser.parsePrimitive]
      show ((Option.map _ (scanPrimitive js js.passes r.pos)).bind _).bind _ = _
      rw [hscan, Option.map_some, Option.elim_some, Option.bind_some, Reader.takeToken_nomem]
      rfl
  | str w =>
    have hquote : At js r.pos (quote :: (w.val ++ quote :: rest)) := by
      simp only [Event.chars, List.cons_append, List.append_assoc, List.nil_append] at hat
      exact hat
    have hscan := scanString_closed w.property hquote.next
    rw [parseLoop_char hquote, parseChar_quote, Parser.parseString]
    show ((Option.map _ (scanString js js.passes (r.pos + 1))).bind _).bind _ = _
    rw [hscan, Option.map_some, if_pos rfl, Option.bind_some]
    show (Parser.counting ((r.parser 0).takeToken _ (r.pos + 1) _ _)).bind _ = _
    rw [Reader.takeToken_nomem]
    rfl

end Passes

/-! ## Where a reader cannot go on -/

/-- Nothing in a text goes on with any event. -/
inductive Stuck (r : Reader) : List UInt8 → JsmnErr → Prop where
  | closed (hframes : r.frames = []) : Stuck r [] .success
  | opened (hframes : r.frames ≠ []) : Stuck r [] .part
  | unfinished (w : Body) : Stuck r (quote :: w.val) .part
  | closing (k : Kind) (rest : List UInt8) (hframes : ∀ f ∈ r.frames.head?, f.kind ≠ k) : Stuck r (k.closing :: rest) .inval
  | escape (w : Body) (rest : List UInt8) (hrest : ∀ e ∈ rest.head?, isEscape e = false) :
    Stuck r (quote :: (w.val ++ backslash :: rest)) .inval
  | word {w : List UInt8} {c d : UInt8} {rest rest' : List UInt8} (hw : ∀ c ∈ w, isPlain c = true) (hends : endsPrimitive c = false)
    (hplain : isPlain c = false) (hother : Other d) (hsplit : w ++ c :: rest = d :: rest') : Stuck r (w ++ c :: rest) .inval

/-- Where the reader is stuck the loop ends with the error. -/
theorem Stuck.parseLoop {js : CString} {r : Reader} {t : List UInt8} {err : JsmnErr} (h : Stuck r t err) (hat : At js r.pos t) (n k : Nat) :
    Parser.parseLoop js (n + 1) (r.parser k) = some (err, r.parser k) := by
  have hend : t = [] →
      Parser.parseLoop js (n + 1) (r.parser k) = some (if (Reader.super r.frames).isSome then .part else .success, r.parser k) := by
    rintro rfl
    have hread : js.at? (r.parser k).pos = some 0 := hat.read_nil
    rw [Parser.parseLoop, hread, Option.bind_some, if_pos rfl, Parser.finish]
    show (Parser.lastOpen (r.tokens ++ unused k) r.tokens.length).map _ = _
    rw [Reader.lastOpen_tokens]
    rfl
  cases h with
  | closed hframes =>
    rw [hend rfl, hframes]
    rfl
  | opened hframes =>
    rw [hend rfl]
    cases hfs : r.frames with
    | nil => exact absurd hfs hframes
    | cons f fs => rfl
  | unfinished w =>
    have hscan := scanString_unfinished w.property hat.next
    rw [parseLoop_char hat, parseChar_quote, Parser.parseString]
    show ((Option.map _ (scanString js js.passes (r.pos + 1))).bind _).bind _ = _
    rw [hscan]
    rfl
  | closing kind rest hframes =>
    rw [parseLoop_char hat, parseChar_closing]
    cases hfs : r.frames with
    | nil =>
      rw [Reader.closeToken_nil hfs]
      rfl
    | cons f fs =>
      rw [hfs] at hframes
      rw [Reader.closeToken_other hfs (hframes f rfl)]
      rfl
  | escape w rest hrest =>
    have hscan := scanString_invalid w.property hat.next hrest
    rw [parseLoop_char hat, parseChar_quote, Parser.parseString]
    show ((Option.map _ (scanString js js.passes (r.pos + 1))).bind _).bind _ = _
    rw [hscan]
    rfl
  | @word w c d rest rest' hw hends hplain hother hsplit =>
    have hscan := scanPrimitive_invalid hw hat hends hplain
    rw [hsplit] at hat
    rw [parseLoop_char hat, parseChar_other hother, Parser.parsePrimitive]
    show ((Option.map _ (scanPrimitive js js.passes r.pos)).bind _).bind _ = _
    rw [hscan]
    rfl

/-- A text goes on with an event, or the reader is stuck. -/
theorem progress (r : Reader) (t : List UInt8) :
    (∃ e rest r', t = e.chars ++ rest ∧ (e.isWord = true → Apart rest) ∧ r.step e = some r') ∨ ∃ err, Stuck r t err := by
  cases t with
  | nil =>
    cases hframes : r.frames with
    | nil => exact .inr ⟨_, .closed hframes⟩
    | cons f fs => exact .inr ⟨_, .opened (by rw [hframes]; exact List.cons_ne_nil _ _)⟩
  | cons c t =>
    by_cases hobject : c = 0x7B
    · exact .inl ⟨.opening .object, t, _, by rw [hobject]; rfl, nofun, rfl⟩
    by_cases harray : c = 0x5B
    · exact .inl ⟨.opening .array, t, _, by rw [harray]; rfl, nofun, rfl⟩
    by_cases hquote : c = quote
    · subst hquote
      rcases split_string t with ⟨w, rest, hw, rfl⟩ | hw | ⟨w, rest, hw, rfl, hrest⟩
      · refine .inl ⟨.str ⟨w, hw⟩, rest, _, ?_, nofun, rfl⟩
        rw [Event.chars, List.cons_append, List.cons_append, List.append_assoc]
        rfl
      · exact .inr ⟨_, .unfinished ⟨t, hw⟩⟩
      · exact .inr ⟨_, .escape ⟨w, hw⟩ rest hrest⟩
    cases hends : endsPrimitive c with
    | true =>
      rcases endsPrimitive_cases hends with hblank | ⟨k, rfl⟩
      · exact .inl ⟨.blank ⟨c, hblank⟩, t, _, rfl, nofun, rfl⟩
      · cases hframes : r.frames with
        | nil => exact .inr ⟨_, .closing k t (by rw [hframes]; exact fun f hf => nomatch hf)⟩
        | cons f fs =>
          by_cases hkind : f.kind = k
          · refine .inl ⟨.closing k, t, r.leave f (r.pos + 1), rfl, nofun, ?_⟩
            rw [Reader.step, hframes, List.head?_cons, Option.bind_some, if_pos hkind]
          · refine .inr ⟨_, .closing k t ?_⟩
            rw [hframes]
            exact fun g hg => Option.some.inj hg ▸ hkind
    | false =>
      have hother : Other c := ⟨hobject, harray, hquote, hends⟩
      obtain ⟨w, rest, hsplit, hw, hrest⟩ := split_plain (c :: t)
      cases rest with
      | nil =>
        rw [List.append_nil] at hsplit
        subst hsplit
        have hword : IsWord (c :: t) := ⟨List.cons_ne_nil _ _, hw, fun d hd => Option.some.inj hd ▸ ⟨hobject, harray, hquote⟩⟩
        exact .inl ⟨.word ⟨c :: t, hword⟩, [], _, (List.append_nil _).symm, (fun _ d hd => nomatch hd), rfl⟩
      | cons d rest =>
        cases hd : endsPrimitive d with
        | false =>
          rw [hsplit]
          exact .inr ⟨_, .word hw hd (hrest d rfl) hother hsplit.symm⟩
        | true =>
          cases w with
          | nil =>
            rw [List.nil_append] at hsplit
            cases hsplit
            rw [hends] at hd
            cases hd
          | cons c' w =>
            cases hsplit
            have hword : IsWord (c :: w) := ⟨List.cons_ne_nil _ _, hw, fun d hd => Option.some.inj hd ▸ ⟨hobject, harray, hquote⟩⟩
            exact .inl ⟨.word ⟨c :: w, hword⟩, d :: rest, _, rfl, fun _ e he => Option.some.inj he ▸ hd, rfl⟩

/-! ## Paths -/

/-- The characters of events. -/
def charsOf (es : List Event) : List UInt8 := es.flatMap Event.chars

/-- The number of the tokens of events. -/
def tokensOf (es : List Event) : Nat := (es.map Event.tokens).sum

/-- The characters of the first event come first. -/
theorem charsOf_cons (e : Event) (es : List Event) : charsOf (e :: es) = e.chars ++ charsOf es := List.flatMap_cons

/-- The characters of two parts. -/
theorem charsOf_append (es es' : List Event) : charsOf (es ++ es') = charsOf es ++ charsOf es' := List.flatMap_append

/-- There are not more events than characters. -/
theorem length_le_charsOf (es : List Event) : es.length ≤ (charsOf es).length := by
  induction es with
  | nil => exact Nat.le_refl 0
  | cons e es ih =>
    have hpos := List.length_pos_of_ne_nil e.chars_ne_nil
    rw [charsOf_cons, List.length_append, List.length_cons]
    omega

/-- There are not more tokens than characters. -/
theorem tokensOf_le_charsOf (es : List Event) : tokensOf es ≤ (charsOf es).length := by
  have hone : tokensOf es ≤ es.length := by
    induction es with
    | nil => exact Nat.le_refl 0
    | cons e es ih =>
      have h : e.tokens ≤ 1 := by cases e <;> simp [Event.tokens]
      rw [tokensOf, List.map_cons, List.sum_cons, List.length_cons]
      rw [tokensOf] at ih
      omega
  exact Nat.le_trans hone (length_le_charsOf es)

/-- A reader goes from one state to another over events that `rest` follows. -/
inductive Path : Reader → List Event → List UInt8 → Reader → Prop where
  | nil {r : Reader} {rest : List UInt8} : Path r [] rest r
  | cons {r r' r'' : Reader} {e : Event} {es : List Event} {rest : List UInt8} (hstep : r.step e = some r')
    (hapart : e.isWord = true → Apart (charsOf es ++ rest)) (hpath : Path r' es rest r'') : Path r (e :: es) rest r''

/-- Two paths, one after the other. -/
theorem Path.append {r r' r'' : Reader} {es es' : List Event} {rest : List UInt8} (h : Path r es (charsOf es' ++ rest) r')
    (h' : Path r' es' rest r'') : Path r (es ++ es') rest r'' := by
  induction es generalizing r with
  | nil =>
    cases h
    exact h'
  | cons e es ih =>
    cases h with
    | cons hstep hapart hpath =>
      refine .cons hstep ?_ (ih hpath)
      show e.isWord = true → Apart (charsOf (es ++ es') ++ rest)
      rw [charsOf_append, List.append_assoc]
      exact hapart

/-- A path in two parts. -/
theorem Path.split {r r'' : Reader} {es es' : List Event} {rest : List UInt8} (h : Path r (es ++ es') rest r'') :
    ∃ r', Path r es (charsOf es' ++ rest) r' ∧ Path r' es' rest r'' := by
  induction es generalizing r with
  | nil => exact ⟨r, .nil, h⟩
  | cons e es ih =>
    cases h with
    | cons hstep hapart hpath =>
      obtain ⟨r', hfirst, hsecond⟩ := ih hpath
      refine ⟨r', .cons hstep ?_ hfirst, hsecond⟩
      have h : e.isWord = true → Apart (charsOf (es ++ es') ++ rest) := hapart
      rwa [charsOf_append, List.append_assoc] at h

/-- A path ends in one reader. -/
theorem Path.unique {r r' r'' : Reader} {es : List Event} {rest rest' : List UInt8} (h : Path r es rest r') (h' : Path r es rest' r'') :
    r' = r'' := by
  induction h with
  | nil =>
    cases h'
    rfl
  | cons hstep _ _ ih =>
    cases h' with
    | cons hstep' _ hpath' =>
      cases Option.some.inj (hstep.symm.trans hstep')
      exact ih hpath'

/-- A path leads to what is left of the text. -/
theorem Path.at {js : CString} {r r' : Reader} {es : List Event} {rest : List UInt8} (h : Path r es rest r')
    (hat : At js r.pos (charsOf es ++ rest)) : At js r'.pos rest := by
  induction h with
  | nil => exact hat
  | cons hstep _ _ ih =>
    refine ih ?_
    rw [Event.pos_step hstep]
    rw [charsOf_cons, List.append_assoc] at hat
    exact hat.skip

/-- The loop goes the path of the reader, one pass for each event. -/
theorem Path.parseLoop {js : CString} {r r' : Reader} {es : List Event} {rest : List UInt8} (h : Path r es rest r')
    (hat : At js r.pos (charsOf es ++ rest)) (n k : Nat) :
    Parser.parseLoop js (n + es.length) (r.parser (k + tokensOf es)) = Parser.parseLoop js n (r'.parser k) := by
  induction h with
  | nil => rfl
  | @cons r r' r'' e es rest hstep hapart _ ih =>
    have hsplit : k + tokensOf (e :: es) = k + tokensOf es + e.tokens := by
      rw [tokensOf, List.map_cons, List.sum_cons, ← tokensOf]
      omega
    rw [charsOf_cons, List.append_assoc] at hat
    rw [hsplit, List.length_cons, ← Nat.add_assoc, parseLoop_event hat hapart hstep]
    refine ih ?_
    rw [Event.pos_step hstep]
    exact hat.skip

/-- From any state the reader gets to where it is stuck. -/
theorem exists_path (r : Reader) (t : List UInt8) : ∃ es rest r' err, t = charsOf es ++ rest ∧ Path r es rest r' ∧ Stuck r' rest err := by
  induction hlen : t.length using Nat.strong_induction_on generalizing r t with
  | h n ih =>
    rcases progress r t with ⟨e, rest, r', rfl, hapart, hstep⟩ | ⟨err, hstuck⟩
    · have hpos := List.length_pos_of_ne_nil e.chars_ne_nil
      rw [List.length_append] at hlen
      obtain ⟨es, rest', r'', err, rfl, hpath, hstuck⟩ := ih rest.length (by omega) r' rest rfl
      refine ⟨e :: es, rest', r'', err, ?_, .cons hstep hapart hpath, hstuck⟩
      rw [charsOf_cons, List.append_assoc]
    · exact ⟨[], t, r, err, rfl, .nil, hstuck⟩

/-! ## Paths through forests -/

namespace Forest

/-- The events of a forest. -/
def events : Forest → List Event
  | nil => []
  | blank c rest => .blank c :: rest.events
  | lastWord w => [.word w]
  | word w c rest => .word w :: .blank c :: rest.events
  | str w rest => .str w :: rest.events
  | node k inner rest => .opening k :: (inner.events ++ .closing k :: rest.events)

/-- The text ends in a primitive that nothing has ended. -/
def endsInWord : Forest → Bool
  | nil => false
  | blank _ rest => rest.endsInWord
  | lastWord _ => true
  | word _ _ rest => rest.endsInWord
  | str _ rest => rest.endsInWord
  | node _ _ rest => rest.endsInWord

/-- The characters of the events are those of the forest. -/
theorem charsOf_events (f : Forest) : charsOf f.events = f.chars := by
  induction f with
  | nil => rfl
  | blank c rest ih =>
    rw [events, charsOf_cons, ih]
    rfl
  | lastWord w =>
    rw [events, charsOf_cons]
    exact List.append_nil _
  | word w c rest ih =>
    rw [events, charsOf_cons, charsOf_cons, ih]
    rfl
  | str w rest ih =>
    rw [events, charsOf_cons, ih, Event.chars, List.append_assoc]
    rfl
  | node k inner rest ihinner ih =>
    rw [events, charsOf_cons, charsOf_append, charsOf_cons, ihinner, ih]
    rfl

/-- The tokens of two parts. -/
theorem tokensOf_append (es es' : List Event) : tokensOf (es ++ es') = tokensOf es + tokensOf es' := by
  rw [tokensOf, List.map_append, List.sum_append]
  rfl

/-- The tokens of the first event. -/
theorem tokensOf_cons (e : Event) (es : List Event) : tokensOf (e :: es) = e.tokens + tokensOf es := by
  rw [tokensOf, List.map_cons, List.sum_cons]
  rfl

/-- The tokens are the spans. -/
theorem tokensOf_events (f : Forest) (pos : Nat) : tokensOf f.events = (f.spans pos).length := by
  induction f generalizing pos with
  | nil => rfl
  | blank c rest ih => rw [events, tokensOf_cons, ih (pos + 1), spans, Event.tokens, Nat.zero_add]
  | lastWord w => rfl
  | word w c rest ih =>
    rw [events, tokensOf_cons, tokensOf_cons, ih (pos + w.val.length + 1), spans, List.length_cons, Event.tokens, Event.tokens, Nat.zero_add,
      Nat.add_comm]
  | str w rest ih => rw [events, tokensOf_cons, ih (pos + 1 + w.val.length + 1), spans, List.length_cons, Event.tokens, Nat.add_comm]
  | node k inner rest ihinner ih =>
    rw [events, tokensOf_cons, tokensOf_append, tokensOf_cons, ihinner (pos + 1), ih (pos + 1 + inner.chars.length + 1), spans,
      List.length_cons, List.length_append, Event.tokens, Event.tokens, Nat.zero_add, Nat.add_comm]

end Forest

/-- Counting nothing changes nothing. -/
theorem Reader.count_zero (fs : List Frame) : count 0 fs = fs := by
  cases fs with
  | nil => rfl
  | cons f fs => rfl

/-- Counting twice. -/
theorem Reader.count_count (m n : Nat) (fs : List Frame) : count n (count m fs) = count (m + n) fs := by
  cases fs with
  | nil => rfl
  | cons f fs => rw [count, count, count, Nat.add_assoc]

/-- Behind a forest. -/
def Reader.after (r : Reader) (f : Forest) : Reader := ⟨count f.size r.frames, r.last ++ f.spans r.pos, r.pos + f.chars.length⟩

namespace Forest

/-- A reader goes through a forest, whose brackets are closed behind it. -/
theorem path (f : Forest) (r : Reader) {rest : List UInt8} (hrest : f.endsInWord = true → Apart rest) : Path r f.events rest (r.after f) := by
  induction f generalizing r rest with
  | nil =>
    have hafter : r.after nil = r := by
      rw [Reader.after, size, Reader.count_zero, spans, List.append_nil]
      rfl
    rw [hafter]
    exact .nil
  | blank c f ih =>
    have hafter : Reader.after { r with pos := r.pos + 1 } f = r.after (blank c f) := by
      rw [Reader.after, Reader.after, chars, List.length_cons, Nat.add_right_comm]
      rfl
    rw [← hafter]
    exact .cons rfl nofun (ih _ hrest)
  | lastWord w => exact .cons rfl (fun _ => hrest rfl) .nil
  | word w c f ih =>
    have hafter : Reader.after { r.leaf ⟨.primitive, r.pos, r.pos + w.val.length, 0⟩ (r.pos + w.val.length) with
        pos := r.pos + w.val.length + 1 } f = r.after (word w c f) := by
      rw [Reader.after, Reader.after, chars, List.length_append, List.length_cons, Reader.leaf, Reader.count_count, List.append_assoc]
      congr 1
      dsimp only
      omega
    rw [← hafter]
    exact .cons rfl (fun _ d hd => Option.some.inj hd ▸ (isBlank_spec c.property).1) (.cons rfl nofun (ih _ hrest))
  | str w f ih =>
    have hafter : (r.leaf ⟨.string, r.pos + 1, r.pos + 1 + w.val.length, 0⟩ (r.pos + 1 + w.val.length + 1)).after f = r.after (str w f) := by
      rw [Reader.after, Reader.after, chars, List.length_append, List.length_cons, List.length_cons, Reader.leaf, Reader.count_count,
        List.append_assoc]
      congr 1
      dsimp only
      omega
    rw [← hafter]
    exact .cons rfl nofun (ih _ hrest)
  | node k inner f ihinner ih =>
    have hinner : Path (r.enter k (r.pos + 1)) inner.events (charsOf (.closing k :: f.events) ++ rest) ((r.enter k (r.pos + 1)).after inner) :=
      ihinner _ fun _ d hd => Option.some.inj hd ▸ endsPrimitive_closing k
    have hclose : ((r.enter k (r.pos + 1)).after inner).step (.closing k) = some ⟨Reader.count 1 r.frames,
        r.last ++ ⟨k.type, r.pos, r.pos + 1 + inner.chars.length + 1, inner.size⟩ :: inner.spans (r.pos + 1),
        r.pos + 1 + inner.chars.length + 1⟩ := by
      rw [Reader.step, Reader.after, Reader.enter, Reader.count, List.head?_cons, Option.bind_some, if_pos rfl, Reader.leave, List.tail_cons,
        Nat.zero_add]
      rfl
    have hafter : Reader.after ⟨Reader.count 1 r.frames,
        r.last ++ ⟨k.type, r.pos, r.pos + 1 + inner.chars.length + 1, inner.size⟩ :: inner.spans (r.pos + 1),
        r.pos + 1 + inner.chars.length + 1⟩ f = r.after (node k inner f) := by
      rw [Reader.after, Reader.after, chars, List.length_append, List.length_cons, List.length_cons, Reader.count_count, List.append_assoc]
      congr 1
      dsimp only
      omega
    rw [← hafter]
    exact .cons rfl nofun (hinner.append (.cons hclose nofun (ih _ hrest)))

/-- A forest is a path to its end. -/
theorem path_end (f : Forest) (r : Reader) : Path r f.events [] (r.after f) := f.path r fun _ _ hc => nomatch hc

end Forest

/-- The first character behind a word is a blank or a closing bracket. -/
theorem event_of_apart {e : Event} {t : List UInt8} (h : Apart (e.chars ++ t)) : (∃ c, e = .blank c) ∨ ∃ k, e = .closing k := by
  cases e with
  | blank c => exact .inl ⟨c, rfl⟩
  | closing k => exact .inr ⟨k, rfl⟩
  | word w =>
    obtain ⟨w, hw⟩ := w
    cases w with
    | nil => exact absurd rfl hw.ne_nil
    | cons c w =>
      have hends := h c rfl
      rw [hw.other.2.2.2] at hends
      cases hends
  | str w => exact absurd (h quote rfl) (by decide)
  | opening k =>
    have hends := h k.opening rfl
    cases k <;> cases hends

/-- A closing bracket leaves the innermost frame, which is of its kind. -/
theorem depth_step {r r' : Reader} {k : Kind} (h : r.step (.closing k) = some r') :
    ∃ f fs, r.frames = f :: fs ∧ f.kind = k ∧ r'.frames = fs := by
  rw [Reader.step] at h
  cases hframes : r.frames with
  | nil =>
    rw [hframes] at h
    cases h
  | cons f fs =>
    rw [hframes, List.head?_cons, Option.bind_some] at h
    split at h
    · next hkind =>
      cases h
      exact ⟨f, fs, rfl, hkind, by rw [Reader.leave, hframes, List.tail_cons]⟩
    · cases h

/-- Counting keeps the number of frames. -/
theorem length_count (n : Nat) (fs : List Frame) : (Reader.count n fs).length = fs.length := by
  cases fs <;> rfl

/-- A path that does not end deeper than it starts begins with a forest, and goes on with a bracket that closes more, if at all. By induction on
the number of its events. -/
theorem Path.forest {r r' : Reader} {es : List Event} {rest : List UInt8} (h : Path r es rest r') (hdepth : r'.frames.length ≤ r.frames.length) :
    ∃ f : Forest, es = f.events ∨ ∃ k es', es = f.events ++ .closing k :: es' := by
  induction hlen : es.length using Nat.strong_induction_on generalizing es r with
  | h n ih =>
    subst hlen
    cases h with
    | nil => exact ⟨.nil, .inl rfl⟩
    | @cons _ m _ e es _ hstep hapart hpath =>
      cases e with
      | blank c =>
        cases hstep
        obtain ⟨f, rfl | ⟨k, es', rfl⟩⟩ := ih es.length (Nat.lt_succ_self _) hpath hdepth rfl
        · exact ⟨.blank c f, .inl rfl⟩
        · exact ⟨.blank c f, .inr ⟨k, es', rfl⟩⟩
      | closing k => exact ⟨.nil, .inr ⟨k, es, rfl⟩⟩
      | str w =>
        cases hstep
        obtain ⟨f, rfl | ⟨k, es', rfl⟩⟩ := ih es.length (Nat.lt_succ_self _) hpath (by rw [Reader.leaf, length_count]; exact hdepth) rfl
        · exact ⟨.str w f, .inl rfl⟩
        · exact ⟨.str w f, .inr ⟨k, es', rfl⟩⟩
      | word w =>
        cases hstep
        cases hpath with
        | nil => exact ⟨.lastWord w, .inl rfl⟩
        | @cons _ m' _ e' es _ hstep' hapart' hpath' =>
          have happ := hapart rfl
          rw [charsOf_cons, List.append_assoc] at happ
          rcases event_of_apart happ with ⟨c, rfl⟩ | ⟨k, rfl⟩
          · cases hstep'
            obtain ⟨f, rfl | ⟨k, es', rfl⟩⟩ := ih es.length (Nat.lt_succ_of_lt (Nat.lt_succ_self _)) hpath'
              (by rw [Reader.leaf, length_count]; exact hdepth) rfl
            · exact ⟨.word w c f, .inl rfl⟩
            · exact ⟨.word w c f, .inr ⟨k, es', rfl⟩⟩
          · exact ⟨.lastWord w, .inr ⟨k, es, rfl⟩⟩
      | opening k =>
        cases hstep
        have hdeep : r'.frames.length ≤ (r.enter k (r.pos + 1)).frames.length := by
          rw [Reader.enter, List.length_cons, length_count]
          omega
        obtain ⟨f, rfl | ⟨k', es', rfl⟩⟩ := ih es.length (Nat.lt_succ_self _) hpath hdeep rfl
        · have hend := hpath.unique (f.path_end (r.enter k (r.pos + 1)))
          rw [hend, Reader.after, Reader.enter, length_count, List.length_cons, length_count] at hdepth
          omega
        · obtain ⟨r₁, hfirst, hsecond⟩ := hpath.split
          have hinner := hfirst.unique (f.path_end (r.enter k (r.pos + 1)))
          cases hsecond with
          | @cons _ m' _ _ _ _ hstep' _ hpath' =>
            obtain ⟨g, fs, hframes, hkind, hm⟩ := depth_step hstep'
            rw [hinner, Reader.after, Reader.enter, Reader.count] at hframes
            cases hframes
            have hsame : k = k' := hkind
            subst hsame
            obtain ⟨f', rfl | ⟨k', es'', rfl⟩⟩ := ih es'.length
              (by simp only [List.length_cons, List.length_append]; omega) hpath' (by rw [hm, length_count]; exact hdepth) rfl
            · exact ⟨.node k f f', .inl rfl⟩
            · refine ⟨.node k f f', .inr ⟨k', es'', ?_⟩⟩
              rw [Forest.events, List.cons_append, List.append_assoc, List.cons_append]

/-! ## Calls -/

/-- A new call clears the tokens that it has not taken. -/
theorem clearRest_of_tokens {r : Reader} (room : List Token) :
    Parser.clearRest ⟨r.pos, r.tokens.length, Reader.superOf r.frames, r.tokens ++ room⟩ = r.parser room.length := by
  rw [Parser.clearRest, Reader.parser]
  dsimp only
  rw [List.take_left, List.length_append, Nat.add_sub_cancel_left]
  rfl

/-- A new parser has all of its tokens. -/
theorem clearRest_init (tokens : List Token) : (Parser.init tokens).clearRest = Reader.new.parser tokens.length :=
  clearRest_of_tokens (r := Reader.new) tokens

/-- An event adds its tokens. -/
theorem length_tokens_step {r r' : Reader} {e : Event} (h : r.step e = some r') : r'.tokens.length = r.tokens.length + e.tokens := by
  have hleaf : ∀ s pos, (r.leaf s pos).tokens.length = r.tokens.length + 1 := fun s pos => congrArg Parser.toknext (r.parser_leaf s pos 0)
  cases e with
  | blank c =>
    cases h
    rfl
  | word w =>
    cases h
    exact hleaf _ _
  | str w =>
    cases h
    exact hleaf _ _
  | opening k =>
    cases h
    rw [Reader.tokens, Reader.enter, Reader.frameTokens, Reader.tokens, List.length_append, List.length_append, List.length_append,
      List.length_append, Reader.length_frameTokens_count, Event.tokens]
    exact Nat.add_assoc _ _ _
  | closing k =>
    obtain ⟨f, fs, hframes, hkind, hrest⟩ := depth_step h
    rw [Reader.step, hframes, List.head?_cons, Option.bind_some, if_pos hkind] at h
    cases h
    rw [Reader.tokens, Reader.tokens, hrest, hframes, Reader.leave, Reader.frameTokens, Event.tokens]
    simp only [List.length_append, List.length_map, List.length_cons, List.length_nil]
    omega

/-- A path adds its tokens. -/
theorem Path.length_tokens {r r' : Reader} {es : List Event} {rest : List UInt8} (h : Path r es rest r') :
    r'.tokens.length = r.tokens.length + tokensOf es := by
  induction h with
  | nil => rfl
  | cons hstep _ _ ih => rw [ih, length_tokens_step hstep, Forest.tokensOf_cons, Nat.add_assoc]

/-- The text behind a path matters for the last word only. -/
theorem Path.rest_congr {r r' : Reader} {es : List Event} {rest rest' : List UInt8} (h : Path r es rest r')
    (hrest : Apart rest' ∨ rest.head? = rest'.head?) : Path r es rest' r' := by
  induction h with
  | nil => exact .nil
  | @cons _ _ _ e es rest hstep hapart _ ih =>
    refine .cons hstep (fun hword => ?_) (ih hrest)
    have h := hapart hword
    cases es with
    | nil =>
      rcases hrest with hrest | hhead
      · exact hrest
      · intro c hc
        exact h c (hhead.symm ▸ hc)
    | cons e es =>
      rw [charsOf_cons, List.append_assoc] at h ⊢
      intro c hc
      refine h c ?_
      cases hchars : e.chars with
      | nil => exact absurd hchars e.chars_ne_nil
      | cons d t =>
        rw [hchars] at hc
        exact hc

/-- The first tokens are taken before the text is read to its end. -/
theorem split_tokens {es : List Event} {n : Nat} (h : n < tokensOf es) :
    ∃ es₁ e es₂, es = es₁ ++ e :: es₂ ∧ tokensOf es₁ = n ∧ e.tokens = 1 := by
  induction es generalizing n with
  | nil => exact absurd h (Nat.not_lt_zero n)
  | cons e es ih =>
    rw [Forest.tokensOf_cons] at h
    have hcases : e.tokens = 0 ∨ e.tokens = 1 := by cases e <;> simp [Event.tokens]
    rcases Nat.lt_or_ge n e.tokens with hfirst | hlater
    · exact ⟨[], e, es, rfl, show 0 = n by omega, by omega⟩
    · obtain ⟨es₁, e', es₂, rfl, hn, hneeds⟩ := ih (n := n - e.tokens) (by omega)
      refine ⟨e :: es₁, e', es₂, rfl, ?_, hneeds⟩
      rw [Forest.tokensOf_cons, hn]
      omega

section Calls

variable {js : CString} {r r' : Reader} {es : List Event} {rest : List UInt8} {err : JsmnErr}

/-- The passes suffice for the events of a path. -/
theorem passes_eq (hat : At js r.pos (charsOf es ++ rest)) : ∃ n, js.passes = n + 1 + es.length := by
  have hlen := hat.length
  have hle := length_le_charsOf es
  rw [List.length_append] at hlen
  exact ⟨js.passes - 1 - es.length, by rw [CString.passes]; omega⟩

/-- With enough tokens the parser gets to where the reader is stuck. -/
theorem loop_of_stuck (hpath : Path r es rest r') (hstuck : Stuck r' rest err) (hat : At js r.pos (charsOf es ++ rest)) {k : Nat}
    (hk : tokensOf es ≤ k) :
    Parser.parseLoop js js.passes (r.parser k) = some (err, r'.parser (k - tokensOf es)) := by
  obtain ⟨n, hn⟩ := passes_eq hat
  have hsplit : k = k - tokensOf es + tokensOf es := by omega
  rw [hn, hsplit, hpath.parseLoop hat, hstuck.parseLoop (hpath.at hat), Nat.add_sub_cancel]

/-- With fewer it gets to where the next one is missing. -/
theorem loop_of_nomem (hpath : Path r es rest r') (hat : At js r.pos (charsOf es ++ rest)) {k : Nat} (hk : k < tokensOf es) :
    ∃ es₁ e es₂ r₁, es = es₁ ++ e :: es₂ ∧ tokensOf es₁ = k ∧ e.tokens = 1 ∧ Path r es₁ (charsOf (e :: es₂) ++ rest) r₁ ∧
      Parser.parseLoop js js.passes (r.parser k) = some (.nomem, r₁.parser 0) := by
  obtain ⟨es₁, e, es₂, rfl, htokens, hneeds⟩ := split_tokens hk
  obtain ⟨r₁, hfirst, hsecond⟩ := hpath.split
  rw [charsOf_append, List.append_assoc] at hat
  obtain ⟨n, hn⟩ := passes_eq hat
  refine ⟨es₁, e, es₂, r₁, rfl, htokens, hneeds, hfirst, ?_⟩
  have hnext := hfirst.at hat
  rw [charsOf_cons, List.append_assoc] at hnext
  have hrun := hfirst.parseLoop hat (n + 1) 0
  rw [Nat.zero_add, htokens] at hrun
  rw [hn, hrun]
  cases hsecond with
  | cons hstep hapart hpath' => exact parseLoop_nomem hnext hapart hneeds n

/-- Every loop ends where the reader is stuck or where it needs a token, on the way through the text. -/
theorem loop_spec (hat : At js r.pos rest) (k : Nat) : ∃ err es rest' r' k', rest = charsOf es ++ rest' ∧ Path r es rest' r' ∧
    k = tokensOf es + k' ∧ Parser.parseLoop js js.passes (r.parser k) = some (err, r'.parser k') := by
  obtain ⟨es, rest', r', err, rfl, hpath, hstuck⟩ := exists_path r rest
  rcases Nat.lt_or_ge k (tokensOf es) with hfew | henough
  · obtain ⟨es₁, e, es₂, r₁, rfl, htokens, -, hfirst, hloop⟩ := loop_of_nomem hpath hat hfew
    exact ⟨_, es₁, _, r₁, 0, by rw [charsOf_append, List.append_assoc], hfirst, htokens.symm, hloop⟩
  · exact ⟨err, es, rest', r', k - tokensOf es, rfl, hpath, by omega, loop_of_stuck hpath hstuck hat henough⟩

/-- One more pass changes no result. -/
theorem parseLoop_succ {n : Nat} {p : Parser} {a : JsmnErr × Parser} (h : Parser.parseLoop js n p = some a) :
    Parser.parseLoop js (n + 1) p = some a := by
  induction n generalizing p with
  | zero => cases h
  | succ n ih =>
    rw [Parser.parseLoop] at h ⊢
    cases hc : js.at? p.pos with
    | none =>
      rw [hc] at h
      cases h
    | some c =>
      rw [hc, Option.bind_some] at h
      rw [Option.bind_some]
      split at h
      · next hzero => rwa [if_pos hzero]
      · next hzero =>
        rw [if_neg hzero]
        cases hb : p.parseChar js c with
        | none =>
          rw [hb] at h
          cases h
        | some b =>
          rw [hb, Option.bind_some] at h
          rw [Option.bind_some]
          split at h
          · next hsuccess =>
            rw [if_pos hsuccess]
            exact ih h
          · next hsuccess => rwa [if_neg hsuccess]

/-- More passes change no result. -/
theorem parseLoop_add {n : Nat} {p : Parser} {a : JsmnErr × Parser} (h : Parser.parseLoop js n p = some a) (m : Nat) :
    Parser.parseLoop js (n + m) p = some a := by
  induction m with
  | zero => exact h
  | succ m ih => exact parseLoop_succ ih

/-- A parser that is on its way goes on as one that starts with all of the tokens. -/
theorem parse_on_way (hpath : Path .new es rest r) (hchars : js.chars = charsOf es ++ rest) (k : Nat) :
    Parser.parseLoop js js.passes (r.parser k) = Parser.parseLoop js js.passes (Reader.new.parser (r.tokens.length + k)) := by
  have hat : At js Reader.new.pos (charsOf es ++ rest) := hchars ▸ at_zero js
  have htokens : r.tokens.length + k = k + tokensOf es := by
    have h := hpath.length_tokens
    rw [h, Nat.add_comm]
    exact congrArg (k + ·) (Nat.zero_add _)
  obtain ⟨n, hn⟩ := passes_eq hat
  obtain ⟨err, -, -, r', k', -, -, -, hloop⟩ := loop_spec hat (k + tokensOf es)
  have hrun := hpath.parseLoop hat (n + 1) k
  rw [hn, hrun] at hloop
  rw [htokens, hn, hrun, hloop]
  exact parseLoop_add hloop es.length

end Calls

end Blockmon.Jsmn
