import Blockmon.Lemmas.Jsmn

/-!
# What the JSON tokenizer accepts

The tokens of a text that is accepted are the places of the values of a forest, and the errors say whether more text would help. A parser that
is called again goes on as if it had all of the text and all of the tokens from the start.
-/

namespace Blockmon.Jsmn

open Reader (new)

variable {js : CString} {tokens : List Token} {q : Parser}

/-! ## Texts that are accepted -/

/-- A path that leaves no bracket open is a forest. -/
theorem forest_of_path {es : List Event} {r : Reader} (hpath : Path new es [] r) (hframes : r.frames = []) :
    ∃ f : Forest, es = f.events ∧ r = new.after f := by
  obtain ⟨f, rfl | ⟨k, es', rfl⟩⟩ := hpath.forest (by rw [hframes]; exact Nat.le_refl 0)
  · exact ⟨f, rfl, hpath.unique (f.path_end new)⟩
  · obtain ⟨m, hfirst, hsecond⟩ := hpath.split
    rw [hfirst.unique (f.path_end new)] at hsecond
    cases hsecond with
    | cons hstep _ _ =>
      obtain ⟨g, fs, hg, -, -⟩ := depth_step hstep
      cases hg

/-- The parser after whole texts. -/
theorem parser_after (f : Forest) (k : Nat) :
    (new.after f).parser k = ⟨f.chars.length, (f.spans 0).length, -1, (f.spans 0).map Span.token ++ unused k⟩ := by
  have htokens : (new.after f).tokens = (f.spans 0).map Span.token := rfl
  rw [Reader.parser, htokens, List.length_map]
  exact congrArg (fun pos => Parser.mk pos _ _ _) (Nat.zero_add _)

/-- A text that is a forest, with tokens enough, succeeds. -/
theorem parse_forest {f : Forest} (hchars : f.chars = js.chars) (hroom : (f.spans 0).length ≤ tokens.length) :
    (Parser.init tokens).parse js = some (.success, (new.after f).parser (tokens.length - (f.spans 0).length)) := by
  have hpath : Path new f.events [] (new.after f) := f.path_end new
  have hat : At js new.pos (charsOf f.events ++ []) := by
    rw [List.append_nil, f.charsOf_events, hchars]
    exact at_zero js
  rw [Parser.parse, clearRest_init, ← f.tokensOf_events 0] at *
  exact loop_of_stuck hpath (.closed rfl) hat hroom

/-- With enough tokens a text is accepted just when it is a forest, and then the tokens are the places of its values. -/
theorem parse_success_iff (js : Text) (tokens : TokenArray) (q : Parser) : (Parser.init tokens.val).parse js.val = some (.success, q) ↔
    ∃ f : Forest, f.chars = js.val.chars ∧ (f.spans 0).length ≤ tokens.val.length ∧
      q = ⟨js.val.chars.length, (f.spans 0).length, -1, (f.spans 0).map Span.token ++ unused (tokens.val.length - (f.spans 0).length)⟩ := by
  constructor
  · intro h
    obtain ⟨es, rest, r, err, hchars, hpath, hstuck⟩ := exists_path new js.val.chars
    have hat : At js.val new.pos (charsOf es ++ rest) := hchars ▸ at_zero js.val
    rw [Parser.parse, clearRest_init] at h
    rcases Nat.lt_or_ge tokens.val.length (tokensOf es) with hfew | henough
    · obtain ⟨_, _, _, _, _, _, _, _, hloop⟩ := loop_of_nomem hpath hat hfew
      rw [hloop] at h
      cases h
    · rw [loop_of_stuck hpath hstuck hat henough] at h
      cases h
      cases hstuck with
      | closed hframes =>
        obtain ⟨f, rfl, hr⟩ := forest_of_path hpath hframes
        rw [List.append_nil, f.charsOf_events] at hchars
        rw [f.tokensOf_events 0] at henough
        refine ⟨f, hchars.symm, henough, ?_⟩
        rw [hr, parser_after, hchars, f.tokensOf_events 0]
  · rintro ⟨f, hchars, hroom, rfl⟩
    rw [parse_forest hchars hroom, parser_after, hchars]

/-! ## Errors -/

/-- A text that is a sequence of whole elements. -/
def Json (t : List UInt8) : Prop := ∃ f : Forest, f.chars = t

/-- More text would help. -/
def Completable (t : List UInt8) : Prop := ∃ more, (∀ c ∈ more, c ≠ 0) ∧ Json (t ++ more)

/-- The text stops behind the backslash of an escape. -/
def EndsInEscape (t : List UInt8) : Prop :=
  ∃ es r, ∃ w : Body, t = charsOf es ++ quote :: (w.val ++ [backslash]) ∧ Path new es (quote :: (w.val ++ [backslash])) r

/-- The result when there are enough tokens for any text of the length. -/
theorem parse_enough (js : CString) {tokens : List Token} (hroom : js.chars.length ≤ tokens.length) {es : List Event} {rest : List UInt8}
    {r : Reader} {err : JsmnErr} (hchars : js.chars = charsOf es ++ rest) (hpath : Path new es rest r) (hstuck : Stuck r rest err) :
    (Parser.init tokens).parse js = some (err, r.parser (tokens.length - tokensOf es)) := by
  have hat : At js new.pos (charsOf es ++ rest) := hchars ▸ at_zero js
  have hle := tokensOf_le_charsOf es
  rw [hchars, List.length_append] at hroom
  rw [Parser.parse, clearRest_init]
  exact loop_of_stuck hpath hstuck hat (by omega)

/-- The brackets that close what is open. -/
def closings (fs : List Frame) : List Event := fs.map fun f => .closing f.kind

/-- The closing brackets lead out of all frames. -/
theorem closings_path (fs : List Frame) {r : Reader} (hframes : r.frames = fs) : ∃ r', Path r (closings fs) [] r' ∧ r'.frames = [] := by
  induction fs generalizing r with
  | nil => exact ⟨r, .nil, hframes⟩
  | cons f fs ih =>
    have hstep : r.step (.closing f.kind) = some (r.leave f (r.pos + 1)) := by
      rw [Reader.step, hframes, List.head?_cons, Option.bind_some, if_pos rfl]
    obtain ⟨r', hpath, hend⟩ := ih (r := r.leave f (r.pos + 1)) (by rw [Reader.leave, hframes, List.tail_cons])
    exact ⟨r', .cons hstep (fun h => by simp [Event.isWord] at h) hpath, hend⟩

/-- The closing brackets can stand in one text. -/
theorem apart_closings (fs : List Frame) : Apart (charsOf (closings fs)) := by
  cases fs with
  | nil => exact fun c hc => nomatch hc
  | cons f fs => exact fun c hc => Option.some.inj hc ▸ endsPrimitive_closing f.kind

/-- A closing bracket is not a zero. -/
theorem charsOf_closings_ne_zero (fs : List Frame) : ∀ c ∈ charsOf (closings fs), c ≠ 0 := by
  intro c hc
  obtain ⟨e, he, hce⟩ := List.mem_flatMap.mp hc
  obtain ⟨f, -, rfl⟩ := List.mem_map.mp he
  rw [List.mem_singleton.mp hce]
  cases f.kind <;> decide

/-- A part of a text becomes a text when the string and the brackets are closed. -/
theorem completable_of_part {es : List Event} {rest : List UInt8} {r : Reader} (hpath : Path new es rest r) (hstuck : Stuck r rest .part) :
    Completable (charsOf es ++ rest) := by
  cases hstuck with
  | opened hframes =>
    obtain ⟨r', hclose, hend⟩ := closings_path r.frames rfl
    have hfirst : Path new es (charsOf (closings r.frames) ++ []) r := by
      rw [List.append_nil]
      exact hpath.rest_congr (.inl (apart_closings r.frames))
    obtain ⟨f, hf, -⟩ := forest_of_path (hfirst.append hclose) hend
    refine ⟨charsOf (closings r.frames), charsOf_closings_ne_zero r.frames, f, ?_⟩
    rw [← f.charsOf_events, ← hf, charsOf_append, List.append_nil]
  | unfinished w =>
    obtain ⟨r', hclose, hend⟩ := closings_path (Reader.count 1 r.frames)
      (r := r.leaf ⟨.string, r.pos + 1, r.pos + 1 + w.val.length, 0⟩ (r.pos + 1 + w.val.length + 1)) rfl
    have hsecond : Path r (.str w :: closings (Reader.count 1 r.frames)) [] r' := .cons rfl nofun hclose
    have hfirst : Path new es (charsOf (.str w :: closings (Reader.count 1 r.frames)) ++ []) r := hpath.rest_congr (.inr rfl)
    obtain ⟨f, hf, -⟩ := forest_of_path (hfirst.append hsecond) hend
    refine ⟨quote :: charsOf (closings (Reader.count 1 r.frames)), ?_, f, ?_⟩
    · intro c hc
      rcases List.mem_cons.mp hc with rfl | hc
      · decide
      · exact charsOf_closings_ne_zero _ c hc
    · rw [← f.charsOf_events, ← hf, charsOf_append, charsOf_cons, Event.chars]
      simp only [List.append_assoc, List.cons_append, List.nil_append]

/-- No text goes on from an invalid character. -/
theorem not_completable_of_inval {es : List Event} {rest : List UInt8} {r : Reader} (hne : ∀ c ∈ charsOf es ++ rest, c ≠ 0)
    (hpath : Path new es rest r) (hstuck : Stuck r rest .inval) (hescape : ¬ EndsInEscape (charsOf es ++ rest)) :
    ¬ Completable (charsOf es ++ rest) := by
  rintro ⟨more, hmore, f, hf⟩
  have hlonger : Stuck r (rest ++ more) .inval ∧ rest.head? = (rest ++ more).head? := by
    cases hstuck with
    | closing k rest hframes => exact ⟨.closing k (rest ++ more) hframes, rfl⟩
    | escape w rest hrest =>
      cases rest with
      | nil => exact absurd ⟨es, r, w, rfl, hpath⟩ hescape
      | cons e rest =>
        refine ⟨?_, rfl⟩
        have h : Stuck r (quote :: (w.val ++ backslash :: (e :: rest ++ more))) .inval := .escape w (e :: rest ++ more) hrest
        simpa only [List.append_assoc, List.cons_append] using h
    | @word w c d rest rest' hw hends hplain hother hsplit =>
      have h : w ++ c :: (rest ++ more) = d :: (rest' ++ more) := by
        rw [← List.cons_append, ← List.append_assoc, hsplit, List.cons_append]
      refine ⟨?_, by rw [hsplit, List.cons_append]; rfl⟩
      rw [List.append_assoc, List.cons_append]
      exact .word hw hends hplain hother h
  obtain ⟨js, hjs⟩ : ∃ js : CString, js.chars = charsOf es ++ rest ++ more :=
    ⟨⟨_, fun c hc => (List.mem_append.mp hc).elim (hne c) (hmore c)⟩, rfl⟩
  have hroom : js.chars.length ≤ (unused js.chars.length).length := by rw [unused, List.length_replicate]
  have hinval := parse_enough js hroom (hjs.trans (List.append_assoc _ _ _)) (hpath.rest_congr (.inr hlonger.2)) hlonger.1
  have hforest : js.chars = charsOf f.events ++ [] := by rw [List.append_nil, f.charsOf_events, hf, hjs]
  have hsuccess := parse_enough js hroom hforest (f.path_end new) (.closed rfl)
  rw [hinval] at hsuccess
  cases hsuccess

section Results

variable (js : CString) {tokens : List Token} (hroom : js.chars.length ≤ tokens.length)

include hroom

/-- A text in JSON, with tokens enough, is parsed. -/
theorem parse_json (h : Json js.chars) : ∃ q, (Parser.init tokens).parse js = some (.success, q) := by
  obtain ⟨f, hf⟩ := h
  exact ⟨_, parse_enough js hroom (by rw [List.append_nil, f.charsOf_events, hf]) (f.path_end new) (.closed rfl)⟩

/-- A text that ends within an escape is invalid. -/
theorem parse_escape (h : EndsInEscape js.chars) : ∃ q, (Parser.init tokens).parse js = some (.inval, q) := by
  obtain ⟨es, r, w, hchars, hpath⟩ := h
  exact ⟨_, parse_enough js hroom hchars hpath (.escape w [] (by rintro e ⟨⟩))⟩

/-- What each result says. -/
theorem parse_cases :
    (∃ q, (Parser.init tokens).parse js = some (.success, q) ∧ Json js.chars) ∨
    (∃ q, (Parser.init tokens).parse js = some (.part, q) ∧ Completable js.chars) ∨
    ∃ q, (Parser.init tokens).parse js = some (.inval, q) ∧ (¬ Completable js.chars ∨ EndsInEscape js.chars) := by
  obtain ⟨es, rest, r, err, hchars, hpath, hstuck⟩ := exists_path new js.chars
  have hparse := parse_enough js hroom hchars hpath hstuck
  cases err with
  | nomem => cases hstuck
  | success =>
    refine .inl ⟨_, hparse, ?_⟩
    cases hstuck with
    | closed hframes =>
      obtain ⟨f, rfl, -⟩ := forest_of_path hpath hframes
      exact ⟨f, by rw [hchars, List.append_nil, f.charsOf_events]⟩
  | part =>
    refine .inr (.inl ⟨_, hparse, ?_⟩)
    rw [hchars]
    exact completable_of_part hpath hstuck
  | inval =>
    refine .inr (.inr ⟨_, hparse, ?_⟩)
    by_cases hescape : EndsInEscape js.chars
    · exact .inr hescape
    · have hne := js.ne_zero
      rw [hchars] at hescape hne ⊢
      exact .inl (not_completable_of_inval hne hpath hstuck hescape)

end Results

/-- A text in JSON needs nothing more to be one. -/
theorem Json.completable {t : List UInt8} (h : Json t) : Completable t := by
  refine ⟨[], (fun _ hc => nomatch hc), ?_⟩
  rwa [List.append_nil]

/-- With a token for each character the error says what is wrong: `JSMN_ERROR_PART` that the text can be completed, and
`JSMN_ERROR_INVAL` that it cannot, but also that it stops inside an escape. -/
theorem parse_error_iff (js : Text) (tokens : TokenArray) (hroom : js.val.chars.length ≤ tokens.val.length) :
    ((∃ q, (Parser.init tokens.val).parse js.val = some (.part, q)) ↔
      Completable js.val.chars ∧ ¬ Json js.val.chars ∧ ¬ EndsInEscape js.val.chars) ∧
    ((∃ q, (Parser.init tokens.val).parse js.val = some (.inval, q)) ↔ ¬ Completable js.val.chars ∨ EndsInEscape js.val.chars) := by
  have hjson := parse_json js.val hroom
  have hescape := parse_escape js.val hroom
  have hresult : ∀ {err err' : JsmnErr} {q : Parser}, err ≠ err' → ¬ ∃ q', some (err, q) = some (err', q') := by
    rintro err err' q hne ⟨q', h⟩
    exact hne (congrArg Prod.fst (Option.some.inj h))
  rcases parse_cases js.val hroom with ⟨q, hparse, h⟩ | ⟨q, hparse, h⟩ | ⟨q, hparse, h⟩ <;> rw [hparse] at hjson hescape ⊢
  · have hnot : ¬ EndsInEscape js.val.chars := fun he => absurd (hescape he) (hresult (by decide))
    refine ⟨iff_of_false (hresult (by decide)) (fun hpart => hpart.2.1 h), iff_of_false (hresult (by decide)) ?_⟩
    rintro (hno | hyes)
    · exact hno h.completable
    · exact hnot hyes
  · have hnot : ¬ EndsInEscape js.val.chars := fun he => absurd (hescape he) (hresult (by decide))
    refine ⟨iff_of_true ⟨q, rfl⟩ ⟨h, fun hj => absurd (hjson hj) (hresult (by decide)), hnot⟩, iff_of_false (hresult (by decide)) ?_⟩
    rintro (hno | hyes)
    · exact hno h
    · exact hnot hyes
  · refine ⟨iff_of_false (hresult (by decide)) ?_, iff_of_true ⟨q, rfl⟩ h⟩
    rintro ⟨hcompletable, -, hnot⟩
    exact h.elim (fun hno => hno hcompletable) hnot

/-- `"[1"` -/
def openArray : Text := ⟨⟨[0x5B, 0x31], by simp⟩, by decide⟩

/-- An open array may be completed, and is neither whole nor in an escape. -/
theorem parse_error_iff_openArray : Completable openArray.val.chars ∧ ¬ Json openArray.val.chars ∧ ¬ EndsInEscape openArray.val.chars :=
  (parse_error_iff openArray ⟨unused 2, by decide⟩ (by decide)).1.mp
    ⟨⟨2, 2, 0, [⟨.array, 0, -1, 1⟩, ⟨.primitive, 1, 2, 0⟩]⟩, by decide⟩

/-! ## Further calls -/

/-- A call with the tokens of the last one, behind which the array may have changed. -/
def Parser.again (p : Parser) (js : CString) (room : List Token) : Option (JsmnErr × Parser) :=
  Parser.parse js { p with tokens := p.tokens.take p.toknext ++ room }

/-- The last text does not stop inside of a primitive of the next one. -/
def Uncut (p : Parser) (js js' : CString) : Prop :=
  ∀ token ∈ p.tokens.take p.toknext, token.type = .primitive → token.stop = js.chars.length → Apart (js'.chars.drop js.chars.length)

/-- A parser after any number of calls, each with the same text or more. -/
inductive Called : CString → Parser → Prop where
  | init (tokens : TokenArray) : Called ⟨[], fun _ h => nomatch h⟩ (.init tokens.val)
  | again {js : CString} {js' : Text} {p q : Parser} {err : JsmnErr} {room : p.Room} (hcalled : Called js p)
    (hmore : js.chars <+: js'.val.chars) (huncut : Uncut p js js'.val) (hparse : p.again js'.val room.val = some (err, q)) : Called js'.val q

/-- On the way through a text, with any room behind the tokens. -/
def OnWay (js : CString) (p : Parser) : Prop := ∃ es rest r room,
  js.chars = charsOf es ++ rest ∧ Path new es rest r ∧ p = ⟨r.pos, r.tokens.length, Reader.superOf r.frames, r.tokens ++ room⟩

/-- A call of the parser goes on where the one before has ended. -/
theorem again_of_tokens (r : Reader) (old : List Token) (js : CString) (room : List Token) :
    (Parser.mk r.pos r.tokens.length (Reader.superOf r.frames) (r.tokens ++ old)).again js room
      = Parser.parseLoop js js.passes (r.parser room.length) := by
  rw [Parser.again, Parser.parse]
  dsimp only
  rw [List.take_left]
  exact congrArg (Parser.parseLoop js js.passes) (clearRest_of_tokens room)

/-- The last event is a word, and there is its token. -/
theorem token_of_word {es : List Event} {w : Word} {rest : List UInt8} {r : Reader} (hpath : Path new (es ++ [.word w]) rest r) :
    ∃ token ∈ r.tokens, token.type = .primitive ∧ token.stop = r.pos := by
  obtain ⟨m, -, hlast⟩ := hpath.split
  cases hlast with
  | cons hstep _ hnil =>
    cases hnil
    cases hstep
    refine ⟨Span.token ⟨.primitive, m.pos, m.pos + w.val.length, 0⟩, ?_, rfl, rfl⟩
    rw [Reader.tokens, Reader.leaf, List.map_append]
    exact List.mem_append_right _ (List.mem_append_right _ List.mem_cons_self)

/-- A path goes on in a longer text, if that does not go on with its last word. -/
theorem OnWay.extend {js js' : CString} {p : Parser} (h : OnWay js p) (hmore : js.chars <+: js'.chars) (huncut : Uncut p js js') : OnWay js' p := by
  obtain ⟨es, rest, r, old, hchars, hpath, rfl⟩ := h
  obtain ⟨more, hmore⟩ := hmore
  have hlonger : Path new es (rest ++ more) r := by
    cases rest with
    | cons c rest => exact hpath.rest_congr (.inr rfl)
    | nil =>
      rcases List.eq_nil_or_concat' es with rfl | ⟨es, e, rfl⟩
      · cases hpath
        exact .nil
      · cases hword : e.isWord with
        | false =>
          obtain ⟨m, hfirst, hlast⟩ := hpath.split
          cases hlast with
          | cons hstep _ hnil =>
            cases hnil
            refine (hfirst.rest_congr (.inr ?_)).append (.cons hstep (fun h => ?_) .nil)
            · rw [charsOf_cons, List.append_assoc, List.append_assoc]
              cases hc : e.chars with
              | nil => exact absurd hc e.chars_ne_nil
              | cons c t => rfl
            · rw [hword] at h
              cases h
        | true =>
          cases e with
          | word w =>
            obtain ⟨token, htoken, htype, hstop⟩ := token_of_word hpath
            have hpos : r.pos = js.chars.length := by
              have hlen := (hpath.at (hchars ▸ at_zero js)).length
              rwa [List.length_nil, Nat.add_zero] at hlen
            have happ := huncut token (by rw [List.take_left]; exact htoken) htype (by rw [hstop, hpos])
            rw [← hmore, List.drop_left] at happ
            exact hpath.rest_congr (.inl happ)
          | blank c => cases hword
          | str w => cases hword
          | opening k => cases hword
          | closing k => cases hword
  exact ⟨es, rest ++ more, r, old, by rw [← hmore, hchars, List.append_assoc], hlonger, rfl⟩

/-- One call on the way. -/
theorem OnWay.parse {js : CString} {p : Parser} (h : OnWay js p) (room : List Token) : ∃ err q, OnWay js q ∧
    p.again js room = some (err, q) ∧ (Parser.init (p.tokens.take p.toknext ++ room)).parse js = some (err, q) := by
  obtain ⟨es, rest, r, old, hchars, hpath, rfl⟩ := h
  have hat : At js new.pos js.chars := at_zero js
  obtain ⟨err, es', rest', r', k', hsplit, hpath', -, hloop⟩ := loop_spec hat (r.tokens.length + room.length)
  refine ⟨err, r'.parser k', ⟨es', rest', r', unused k', hsplit, hpath', rfl⟩, ?_, ?_⟩
  · rw [again_of_tokens, parse_on_way hpath hchars, hloop]
  · rw [Parser.parse, clearRest_init, List.take_left, List.length_append, hloop]

/-- What was called is on the way through the text. -/
theorem Called.onWay {js : CString} {p : Parser} (h : Called js p) : OnWay js p := by
  induction h with
  | init tokens => exact ⟨[], [], new, tokens.val, rfl, .nil, rfl⟩
  | again _ hmore huncut hparse ih =>
    obtain ⟨err, q, hway, hagain, -⟩ := (ih.extend hmore huncut).parse _
    rw [hparse] at hagain
    cases hagain
    exact hway

/-- After any calls with parts of a text and any changes of the array, a call returns what a new parser with all of the text and of the
tokens returns. It does not leave the text and the array. -/
theorem parse_again {js : CString} {p : Parser} (hcalled : Called js p) (js' : Text) (hmore : js.chars <+: js'.val.chars)
    (huncut : Uncut p js js'.val) (room : p.Room) :
    ∃ result, p.again js'.val room.val = some result ∧ (Parser.init (p.tokens.take p.toknext ++ room.val)).parse js'.val = some result := by
  obtain ⟨err, q, -, hagain, hparse⟩ := (hcalled.onWay.extend hmore huncut).parse room.val
  exact ⟨(err, q), hagain, hparse⟩

/-- `"[1,2]"` -/
def pair : Text := ⟨⟨[0x5B, 0x31, 0x2C, 0x32, 0x5D], by simp⟩, by decide⟩

/-- The same in one call and in two. -/
theorem parse_again_pair : ∃ result,
    (Parser.mk 2 2 0 [⟨.array, 0, -1, 1⟩, ⟨.primitive, 1, 2, 0⟩]).again pair.val (unused 1) = some result ∧
    (Parser.init ([⟨.array, 0, -1, 1⟩, ⟨.primitive, 1, 2, 0⟩] ++ unused 1)).parse pair.val = some result := by
  have hfirst : Called openArray.val ⟨2, 2, 0, [⟨.array, 0, -1, 1⟩, ⟨.primitive, 1, 2, 0⟩]⟩ :=
    @Called.again _ openArray (.init []) _ .part ⟨unused 2, by decide⟩ (.init ⟨[], by decide⟩) (List.nil_prefix) (fun _ htoken => nomatch htoken)
      (by decide)
  refine parse_again hfirst pair ⟨[0x2C, 0x32, 0x5D], rfl⟩ ?_ ⟨unused 1, by decide⟩
  intro token _ _ _ c hc
  cases hc
  decide

end Blockmon.Jsmn
