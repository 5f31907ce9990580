import JPype.Html.AttrGrammar
import JPype.Html.Blocks
import JPype.Html.HtmlGrammar

/-!
# Start tags

A start tag is written with its attributes after single spaces, each of them a name, or a name and a
value in quotes of either kind. The grammar of documents reads it as one text (`process_tag`): the
runs of text between the quotes are read in blocks, and a quoted value is closed with `"`, however
it was opened.
-/

namespace JPype.Html

open Unicode HtmlGrammar

/-- The token of a quote. -/
def Quote.token : Quote → Token
  | double => .quote
  | single => .squote

/-- An attribute, with the quotes in which its value is written; a boolean one has none. -/
structure Attribute (doc : Document) where
  name : List Char
  value : Option (Quote × List Char)
  isXMLName_name : doc.isXMLName name
  value_quote : ∀ q v, value = some (q, v) → q.char ∉ v

namespace Attribute

variable {doc : Document} (a : Attribute doc)

/-- An attribute, as it is written. -/
def text : List Char :=
  match a.value with
  | none => a.name
  | some (q, v) => a.name ++ '=' :: q.char :: (v ++ [q.char])

/-- The name and the value, which is the name if the attribute is boolean. -/
def pair : List Char × List Char :=
  match a.value with
  | none => (a.name, a.name)
  | some (_, v) => (a.name, v)

end Attribute

/-- A start tag, of attributes with distinct names. -/
structure StartTag (doc : Document) where
  element : List Char
  attributes : List (Attribute doc)
  isXMLName_element : doc.isXMLName element
  nodup : (attributes.map Attribute.name).Nodup

/-- A start tag, as it is written. -/
def StartTag.text {doc : Document} (t : StartTag doc) : List Char :=
  '<' :: (t.element ++ t.attributes.flatMap (fun a ↦ ' ' :: a.text) ++ ['>'])

/-- What is read of the run `run` and the attributes after it. -/
def tagContent {doc : Document} (run : List Char) : List (Attribute doc) → List Char
  | [] => reread 0 run
  | a :: as =>
    match a.value with
    | none => tagContent (run ++ ' ' :: a.name) as
    | some (q, v) =>
      reread 0 (run ++ ' ' :: (a.name ++ ['='])) ++ q.char ::
        (reread 0 v ++ '"' :: tagContent [] as)

/-- A tag has begun, and nothing after its bracket has been read. -/
structure Begun (p : HtmlParser) : Prop where
  state : p.state = .element
  lookahead : p.lookahead = some .beginElementNext
  stack : ∃ lt, p.stack = [lt] ∧ lt.token = .lt
  delivered : p.delivered = [.startDocument, .text []]

/-- In a tag, or in a quoted part of it, the text `w` has been read. -/
structure InTag (state : State) (w : List Char) (p : HtmlParser) : Prop where
  state : p.state = state
  lookahead : p.lookahead = none
  stack : ∃ e lt, p.stack = [e, lt] ∧ e.token = .text ∧ lt.token = .lt ∧ toString e = w ∧
    e.value ≠ .null
  delivered : p.delivered = [.startDocument, .text []]

/-- The tag has been read. -/
structure TagRead (content : List Char) (p : HtmlParser) : Prop where
  stack : p.stack = []
  delivered : p.delivered = [.startDocument, .text [],
    .startElement (splitSpace content).1 (splitSpace content).2]

variable {p : HtmlParser} {w : List Char}

/-- In a tag, with one text on the stack, no rule applies. -/
theorem settle_inTag (h : InTag .element w p) (n : ℕ) : htmlGrammar.settle (n + 1) p = .ok p := by
  obtain ⟨e, lt, hp, he, hlt, -, -⟩ := h.stack
  refine htmlGrammar.settle_of_none hp ?_ n
  rw [h.state]
  show ∀ rule ∈ [mergeText, startQuote, startElement, endElement, completeElement, escaped,
    cleanup],
    rule p e = .ok (false, p)
  simp only [List.forall_mem_cons]
  refine ⟨?_, ?_, ?_, ?_, ?_, ?_, ?_, fun _ h ↦ nomatch h⟩
  · exact matchRule_false (by simp [hp, he, hlt])
  · rw [startQuote, if_neg (by simp [he])]
  · exact matchRule_false (by simp [hp])
  · rw [endElement, endRule]
    exact matchRule_false (by simp [hp])
  · exact matchRule_false (by simp [hp])
  · exact matchRule_false (by simp [hp])
  · rw [cleanup, if_neg (by simp [he]), if_neg (by simp [he])]

theorem settle_inQuote {token : Token} {state : State} (h : InTag (.quoted token state) w p)
    (htoken : token ≠ .text) (n : ℕ) : htmlGrammar.settle (n + 1) p = .ok p := by
  obtain ⟨e, lt, hp, he, hlt, -, -⟩ := h.stack
  refine htmlGrammar.settle_of_none hp ?_ n
  rw [h.state]
  show ∀ rule ∈ [endQuote token state, mergeText], rule p e = .ok (false, p)
  simp only [List.forall_mem_cons]
  refine ⟨?_, ?_, fun _ h ↦ nomatch h⟩
  · rw [endQuote, if_pos (by rw [he]; exact htoken.symm)]
  · exact matchRule_false (by simp [hp, he, hlt])

/-- Text that is appended to the text of a tag. -/
theorem InTag.append {state : State} {p' : HtmlParser} (h : InTag state w p) {s : List Char}
    {e lt : Entity Token} (hp : p.stack = [e, lt]) {state' : State}
    (hp' : p' = { p with stack := [promoteAppend e s, lt], state := state' }) :
    InTag state' (w ++ s) p' := by
  obtain ⟨e', lt', hstack, he, hlt, hw, -⟩ := h.stack
  rw [hp] at hstack
  obtain ⟨rfl, rfl⟩ : e = e' ∧ lt = lt' := by simpa using hstack
  subst hp'
  refine ⟨rfl, h.lookahead, ⟨_, _, rfl, ?_, hlt, ?_, ?_⟩, h.delivered⟩
  · rw [promoteAppend]
    split
    · exact he
    · rfl
  · rw [← hw, promoteAppend]
    split
    · next t ht => simp [HtmlGrammar.toString, ht]
    · rfl
  · rw [promoteAppend]
    split <;> simp

/-- The states in which the text of a tag is read. -/
def ReadsTag : State → Prop
  | .element => True
  | .quoted token _ => token ≠ .text
  | _ => False

theorem settle_readsTag {state : State} (h : InTag state w p) (hstate : ReadsTag state) (n : ℕ) :
    htmlGrammar.settle (n + 1) p = .ok p := by
  cases state with
  | element => exact settle_inTag h n
  | quoted token outer => exact settle_inQuote h hstate n
  | _ => exact hstate.elim

/-- A text on the text of a tag is merged with it. -/
theorem settle_pushText {outer state : State} (h : InTag outer w p) (hstate : ReadsTag state)
    (s : List Char) (n : ℕ) :
    ∃ p', htmlGrammar.settle (n + 2) { p with
        state := state, stack := ⟨.text, .string s⟩ :: p.stack } = .ok p' ∧
      InTag state (w ++ s) p' ∧ p'.last = p.last := by
  obtain ⟨e, lt, hp, he, hlt, -, -⟩ := h.stack
  rw [hp]
  have hp' : InTag state (w ++ s) { p with stack := [promoteAppend e s, lt], state := state } :=
    h.append hp rfl
  refine ⟨_, ?_, hp', rfl⟩
  have hmerge : mergeText { p with state := state, stack := [⟨.text, .string s⟩, e, lt] }
      ⟨.text, .string s⟩ = .ok
        (true, { p with stack := [promoteAppend e s, lt], state := state }) := by
    rw [mergeText, matchRule, if_pos (by simp [he])]
    rfl
  rw [← settle_readsTag hp' hstate n]
  let p₁ : HtmlParser := { p with state := state, stack := [⟨.text, .string s⟩, e, lt] }
  cases state with
  | element =>
    have hrules : htmlGrammar.getRules p₁.state = [] ++ mergeText ::
        [startQuote, startElement, endElement, completeElement, escaped, cleanup] := rfl
    exact htmlGrammar.settle_of_some rfl hrules (fun _ h ↦ absurd h List.not_mem_nil) hmerge _
  | quoted token outer =>
    have hrules : htmlGrammar.getRules p₁.state = [endQuote token outer] ++ mergeText :: [] := rfl
    refine htmlGrammar.settle_of_some rfl hrules ?_ hmerge _
    simp only [List.forall_mem_cons]
    refine ⟨?_, fun _ h ↦ absurd h List.not_mem_nil⟩
    rw [endQuote, if_pos (show Token.text ≠ token from fun heq ↦ hstate heq.symm)]
  | _ => exact hstate.elim

/-- More text in a tag, or in a quoted part of it. -/
theorem InTag.feedBlock {state : State} (h : InTag state w p) (hstate : ReadsTag state)
    (block : List UInt8) :
    ∃ p', htmlGrammar.feedBlock .text p block = .ok p' ∧ InTag state (w ++ decodeUtf8 block) p' ∧
      p'.last = p.last := by
  obtain ⟨e, lt, hp, -⟩ := h.stack
  obtain ⟨p', hsettle, hp'⟩ := settle_pushText h hstate (decodeUtf8 block) 9
  refine ⟨p', ?_, hp'⟩
  rw [← hsettle, Grammar.feedBlock, htmlGrammar.processToken_of_none h.lookahead, Grammar.reduce,
    Grammar.turns, hp, ← h.state]
  rfl

/-- The first text in a tag. -/
theorem Begun.feedBlock (h : Begun p) (block : List UInt8) :
    ∃ p', htmlGrammar.feedBlock .text p block = .ok p' ∧ InTag .element (decodeUtf8 block) p' ∧
      p'.last = p.last := by
  obtain ⟨lt, hp, hlt⟩ := h.stack
  have hp' : InTag .element (decodeUtf8 block)
      { p with stack := [⟨.text, .string (decodeUtf8 block)⟩, lt], lookahead := none } :=
    ⟨h.state, rfl, ⟨_, _, rfl, rfl, hlt, rfl, fun heq ↦ nomatch heq⟩, h.delivered⟩
  refine ⟨_, ?_, hp', rfl⟩
  have hnext : ∀ p₁ value, htmlGrammar.lookahead .beginElementNext p₁ ⟨.text, value⟩ =
      .ok (false, p₁) := fun _ _ ↦ rfl
  rw [Grammar.feedBlock, Grammar.processToken, h.lookahead, hp]
  dsimp only
  rw [hnext]
  exact settle_inTag hp' _

/-- A quote begins a quoted part. -/
theorem InTag.openQuote (h : InTag .element w p) (q : Quote) :
    ∃ p', htmlGrammar.processToken p (some q.token) .null = .ok p' ∧
      InTag (.quoted q.token .element) (w ++ [q.char]) p' := by
  obtain ⟨e, lt, hp, he, hlt, -, -⟩ := h.stack
  have hreads : ReadsTag (.quoted q.token .element) := by
    cases q <;> exact fun heq ↦ nomatch heq
  obtain ⟨p', hsettle, hp', -⟩ := settle_pushText h hreads [q.char] 8
  refine ⟨p', ?_, hp'⟩
  let p₁ : HtmlParser := { p with stack := [⟨q.token, .null⟩, e, lt] }
  have hrules : htmlGrammar.getRules p₁.state = [mergeText] ++ startQuote ::
      [startElement, endElement, completeElement, escaped, cleanup] := by
    rw [show p₁.state = .element from h.state]
    rfl
  have hmerge : ∀ rule ∈ [mergeText], rule p₁ ⟨q.token, .null⟩ = .ok (false, p₁) := by
    simp only [List.forall_mem_cons]
    refine ⟨matchRule_false ?_, fun _ h ↦ nomatch h⟩
    cases q <;> simp [p₁, Quote.token]
  have hquote : startQuote p₁ ⟨q.token, .null⟩ = .ok (true, { p with
      state := .quoted q.token .element, stack := ⟨.text, .string [q.char]⟩ :: p.stack }) := by
    rw [startQuote, if_pos (by cases q <;> simp [Quote.token]),
      show p₁.state = .element from h.state,
      hp]
    cases q <;> rfl
  rw [htmlGrammar.processToken_of_none h.lookahead, hp, ← hsettle]
  exact htmlGrammar.settle_of_some rfl hrules hmerge hquote 10

/-- The quote ends it, and is written as `"`. -/
theorem InTag.closeQuote {q : Quote} (h : InTag (.quoted q.token .element) w p) :
    ∃ p', htmlGrammar.processToken p (some q.token) .null = .ok p' ∧
      InTag .element (w ++ ['"']) p' := by
  obtain ⟨e, lt, hp, he, hlt, -, -⟩ := h.stack
  let p₁ : HtmlParser := { p with stack := [⟨q.token, .null⟩, e, lt] }
  let p₂ : HtmlParser := { p with
    stack := [promoteAppend e ['"'], lt], state := .element }
  have hp₂ : InTag .element (w ++ ['"']) p₂ := h.append hp rfl
  refine ⟨p₂, ?_, hp₂⟩
  have hrules : htmlGrammar.getRules p₁.state = [] ++ endQuote q.token .element :: [mergeText] := by
    rw [show p₁.state = .quoted q.token .element from h.state]
    rfl
  have hquote : endQuote q.token .element p₁ ⟨q.token, .null⟩ = .ok (true, p₂) := by
    rw [endQuote, if_neg (not_not.2 rfl)]
  rw [htmlGrammar.processToken_of_none h.lookahead, hp, ← settle_inTag hp₂ 9]
  exact htmlGrammar.settle_of_some rfl hrules (fun _ h ↦ absurd h List.not_mem_nil) hquote 10

/-- An entity that has a value is read as it is written. -/
theorem content_of_ne_null {e : Entity Token} (h : e.value ≠ .null) (p : HtmlParser) :
    content p e = .ok (HtmlGrammar.toString e) := by
  rw [content]
  cases hv : e.value with
  | null => exact absurd hv h
  | string s => simp [HtmlGrammar.toString, hv]
  | builder s => simp [HtmlGrammar.toString, hv]

/-- The bracket ends the tag. -/
theorem InTag.processToken_gt (h : InTag .element w p) :
    htmlGrammar.processToken p (some .gt) .null = .ok { p with
      stack := []
      state := .free
      delivered := p.delivered ++ [.startElement (splitSpace w).1 (splitSpace w).2] } := by
  obtain ⟨e, lt, hp, he, hlt, hw, hvalue⟩ := h.stack
  let p₁ : HtmlParser := { p with stack := [⟨.gt, .null⟩, e, lt] }
  let p₂ : HtmlParser := { p with
    stack := []
    state := .free
    delivered := p.delivered ++ [.startElement (splitSpace w).1 (splitSpace w).2] }
  have hrules : htmlGrammar.getRules p₁.state = [mergeText, startQuote] ++ startElement ::
      [endElement, completeElement, escaped, cleanup] := by
    rw [show p₁.state = .element from h.state]
    rfl
  have hbefore : ∀ rule ∈ [mergeText, startQuote],
      rule p₁ ⟨.gt, .null⟩ = .ok (false, p₁) := by
    simp only [List.forall_mem_cons]
    refine ⟨matchRule_false (by simp [p₁]), ?_, fun _ h ↦ nomatch h⟩
    rw [startQuote, if_neg (by simp)]
  have hstart : startElement p₁ ⟨.gt, .null⟩ = .ok (true, p₂) := by
    rw [startElement, matchRule, if_pos (by simp [p₁, he, hlt])]
    dsimp only [p₁]
    rw [content_of_ne_null hvalue, hw]
    rfl
  rw [htmlGrammar.processToken_of_none h.lookahead, hp]
  exact htmlGrammar.settle_of_some rfl hrules hbefore hstart 10

theorem InTag.endTag (h : InTag .element w p) :
    ∃ p', htmlGrammar.processToken p (some .gt) .null = .ok p' ∧ TagRead w p' := by
  refine ⟨_, h.processToken_gt, rfl, ?_⟩
  dsimp only
  rw [h.delivered]
  rfl

/-- The bracket that begins a tag. -/
theorem begun_processToken (hstate : p.state = .free) (hlookahead : p.lookahead = none)
    (hstack : p.stack = []) (hdelivered : p.delivered = [.startDocument]) :
    ∃ p', htmlGrammar.processToken p (some .lt) .null = .ok p' ∧ Begun p' := by
  let p₁ : HtmlParser := { p with stack := [⟨.lt, .null⟩] }
  let p₂ : HtmlParser := { p with
    stack := [⟨.lt, .null⟩]
    lookahead := some .beginElementNext
    state := .element
    delivered := p.delivered ++ [.text []] }
  have hp₂ : p₂.delivered = [.startDocument, .text []] := by
    show p.delivered ++ [_] = _
    rw [hdelivered]
    rfl
  refine ⟨p₂, ?_, rfl, rfl, ⟨_, rfl, rfl⟩, hp₂⟩
  have hrules : htmlGrammar.getRules p₁.state = [] ++ beginElement :: [escaped, mergeText] := by
    rw [show p₁.state = .free from hstate]
    rfl
  have hbegin : beginElement p₁ ⟨.lt, .null⟩ = .ok (true, p₂) := by
    rw [beginElement, if_neg (by simp)]
    rfl
  have hend : htmlGrammar.settle 4 p₂ = .ok p₂ := by
    refine htmlGrammar.settle_of_none rfl ?_ 3
    show ∀ rule ∈ [mergeText, startQuote, startElement, endElement, completeElement, escaped,
      cleanup],
      rule p₂ ⟨.lt, .null⟩ = .ok (false, p₂)
    simp only [List.forall_mem_cons]
    refine ⟨?_, ?_, ?_, ?_, ?_, ?_, ?_, fun _ h ↦ absurd h List.not_mem_nil⟩
    · exact matchRule_false (by simp [p₂])
    · rw [startQuote, if_neg (by simp)]
    · exact matchRule_false (by simp [p₂])
    · rw [endElement, endRule]
      exact matchRule_false (by simp [p₂])
    · exact matchRule_false (by simp [p₂])
    · exact matchRule_false (by simp [p₂])
    · rw [cleanup, if_neg (by simp), if_neg (by simp)]
  rw [htmlGrammar.processToken_of_none hlookahead, hstack, ← hend]
  exact htmlGrammar.settle_of_some rfl hrules (fun _ h ↦ absurd h List.not_mem_nil) hbegin 4

/-! ### The runs of text in a tag -/

theorem InTag.with_last {state : State} (h : InTag state w p) (last : Option Token) :
    InTag state w { p with last := last } :=
  ⟨h.state, h.lookahead, h.stack, h.delivered⟩

theorem Begun.with_last (h : Begun p) (last : Option Token) : Begun { p with last := last } :=
  ⟨h.state, h.lookahead, h.stack, h.delivered⟩

theorem InTag.feedBlocks {state : State} (hstate : ReadsTag state) (blocks : List (List UInt8)) :
    ∀ {w : List Char} {p : HtmlParser}, InTag state w p →
      ∃ p', blocks.foldlM (htmlGrammar.feedBlock .text) p = .ok p' ∧
        InTag state (w ++ blocks.flatMap decodeUtf8) p' := by
  induction blocks with
  | nil =>
    intro w p h
    rw [List.flatMap_nil, List.append_nil]
    exact ⟨p, rfl, h⟩
  | cons block blocks ih =>
    intro w p h
    obtain ⟨p₁, hfeed, h₁, -⟩ := h.feedBlock hstate block
    obtain ⟨p', hblocks, h'⟩ := ih h₁
    rw [List.foldlM_cons, hfeed, List.flatMap_cons, ← List.append_assoc]
    exact ⟨p', hblocks, h'⟩

/-- A tag is being read; the text `s`, which comes next, is not the empty one after its bracket. -/
def Reading (state : State) (w s : List Char) (p : HtmlParser) : Prop :=
  InTag state w p ∨ state = .element ∧ w = [] ∧ Begun p ∧ s ≠ []

theorem Reading.feed {state : State} {s : List Char} (h : Reading state w s p)
    (hstate : ReadsTag state) :
    ∃ p', htmlGrammar.feed .text p (utf8 s) = .ok p' ∧ InTag state (w ++ reread 0 s) p' := by
  rw [← decode_blocks, Grammar.feed]
  obtain h | ⟨rfl, rfl, h, hs⟩ := h
  · split
    · exact InTag.feedBlocks hstate _ h
    · exact InTag.feedBlocks hstate _ (h.with_last _)
  · have hne : utf8 s ≠ [] := fun hnil ↦ hs (utf8_injective hnil)
    obtain ⟨block, bs, hbs⟩ := List.exists_cons_of_ne_nil (blocks_ne_nil hne)
    obtain ⟨p₁, hfeed, h₁, -⟩ := (h.with_last (some .text)).feedBlock block
    obtain ⟨p', hblocks, h'⟩ := InTag.feedBlocks hstate bs h₁
    refine ⟨p', ?_, ?_⟩
    · rw [hbs, if_neg hne, List.foldlM_cons, hfeed]
      exact hblocks
    · rw [hbs, List.flatMap_cons]
      exact h'

/-- A character that is a token, and not one of the text. -/
theorem matchesByte_eq_false {t : Token} {c : Char} (htext : t.text? = some [c])
    (hpos : 0 < c.toNat) (hascii : c.toNat < 0x80) {s : List Char} (hs : c ∉ s) {b : UInt8}
    (hb : b ∈ utf8 s) : t.matchesByte b = false := by
  have hvalue : t.value = UInt8.ofNat c.toNat := by
    rw [Token.value, htext]
  have hne : UInt8.ofNat c.toNat ≠ 0 := by
    intro hzero
    have := congrArg UInt8.toNat hzero
    rw [UInt8.toNat_ofNat'] at this
    change c.toNat % 256 = 0 at this
    omega
  have hb' : b ≠ UInt8.ofNat c.toNat := by
    rintro rfl
    exact hs ((mem_utf8_ascii hascii).1 hb)
  rw [Token.matchesByte, hvalue, beq_eq_false_iff_ne.2 hne, beq_eq_false_iff_ne.2 hb']
  rfl

/-- The marks of a tag. -/
def marks : List Char :=
  ['!', '&', '<', ';', '/', '>', '"', '\'']

/-- Text without marks is text in a tag. -/
theorem find_element {s : List Char} (hs : ∀ c ∈ s, c ∉ marks) :
    ∀ b ∈ utf8 s, (getTokens .element).find? (Token.matchesByte · b) = some .text := by
  intro b hb
  have htokens : [Token.bang, .amp, .lt, .semi, .slash, .gt, .quote, .squote].all fun t ↦
      marks.any fun c ↦ t.text? = some [c] ∧ 0 < c.toNat ∧ c.toNat < 0x80 := by
    decide
  have hnone : [Token.bang, .amp, .lt, .semi, .slash, .gt, .quote, .squote].find?
      (Token.matchesByte · b) = none := by
    refine List.find?_eq_none.2 fun t ht ↦ ?_
    obtain ⟨c, hc, hmark⟩ := List.any_eq_true.1 (List.all_eq_true.1 htokens t ht)
    obtain ⟨htext, hpos, hascii⟩ := of_decide_eq_true hmark
    simp [matchesByte_eq_false htext hpos hascii (fun hmem ↦ hs c hmem hc) hb]
  show ([Token.bang, .amp, .lt, .semi, .slash, .gt, .quote, .squote] ++ [Token.text]).find? _ = _
  rw [List.find?_append, hnone]
  rfl

/-- Text without the quote that ends it is text in a quoted part. -/
theorem find_quoted {q : Quote} {s : List Char} (hs : q.char ∉ s) (state : State) :
    ∀ b ∈ utf8 s,
      (getTokens (.quoted q.token state)).find? (Token.matchesByte · b) = some .text := by
  intro b hb
  have hquote : Token.matchesByte q.token b = false := by
    refine matchesByte_eq_false (c := q.char) ?_ ?_ ?_ hs hb
    · cases q <;> rfl
    · cases q <;> decide
    · cases q <;> decide
  rw [getTokens, List.find?_cons_of_neg (by simp [hquote])]
  rfl

/-- The text up to the next mark. -/
theorem Reading.process {state : State} {s : List Char} (h : Reading state w s p)
    (hstate : ReadsTag state)
    (hs : ∀ b ∈ utf8 s, (getTokens state).find? (Token.matchesByte · b) = some .text)
    {c : Char} {b : UInt8} (hc : String.utf8EncodeChar c = [b]) (token : Token)
    (hfind : (getTokens state).find? (Token.matchesByte · b) = some token) (htoken : token ≠ .text)
    (rest : List Char) :
    ∃ p₁, InTag state (w ++ reread 0 s) p₁ ∧
      htmlGrammar.process (p, []) (utf8 (s ++ c :: rest)) =
        (htmlGrammar.processToken p₁ (some token) .null >>= fun p ↦
          htmlGrammar.process ({ p with last := some token }, []) (utf8 rest)) := by
  let keeps : HtmlParser → Prop := fun p ↦
    p.last = some .text ∧ ((∃ w, InTag state w p) ∨ state = .element ∧ Begun p)
  have hrun : Grammar.IsRun htmlGrammar .text state keeps (utf8 s) := by
    refine ⟨rfl, hs, ?_, fun p hp ↦ hp.1, ?_⟩
    · rintro p ⟨-, ⟨w, hp⟩ | ⟨rfl, hp⟩⟩
      · exact hp.state
      · exact hp.state
    · rintro p p' block ⟨hlast, ⟨w, hp⟩ | ⟨rfl, hp⟩⟩ hfeed
      · obtain ⟨p₁, hfeed₁, hp₁, hlast₁⟩ := hp.feedBlock hstate block
        rw [hfeed] at hfeed₁
        obtain rfl := Except.ok.inj hfeed₁
        exact ⟨hlast₁.trans hlast, .inl ⟨_, hp₁⟩⟩
      · obtain ⟨p₁, hfeed₁, hp₁, hlast₁⟩ := hp.feedBlock block
        rw [hfeed] at hfeed₁
        obtain rfl := Except.ok.inj hfeed₁
        exact ⟨hlast₁.trans hlast, .inl ⟨_, hp₁⟩⟩
  have hkeeps : p.state = state ∧ keeps { p with last := some .text } := by
    obtain h | ⟨rfl, -, h, -⟩ := h
    · exact ⟨h.state, rfl, .inl ⟨w, h.with_last _⟩⟩
    · exact ⟨h.state, rfl, .inr ⟨rfl, h.with_last _⟩⟩
  have hruns : htmlGrammar.runs token = false := beq_eq_false_iff_ne.2 htoken
  obtain ⟨p₁, hfeed, h₁⟩ := h.feed hstate
  refine ⟨p₁, h₁, ?_⟩
  rw [utf8_append, utf8_cons, hc, List.singleton_append,
    Grammar.process_text_then hrun hkeeps.1 hkeeps.2 hfind hruns, hfeed]
  rfl

/-! ### A whole tag -/

variable {doc : Document}

/-- A name has no marks. -/
theorem not_mem_marks {name : List Char} (h : doc.isXMLName name) : ∀ c ∈ name, c ∉ marks := by
  intro c hc hmark
  refine doc.not_isMark name h c hc (.inr ?_)
  have hmarks : marks ⊆ ['!', '"', '&', '\'', '/', ';', '<', '=', '>', replacement] := by
    decide
  exact hmarks hmark

/-- The text that comes before an attribute is not empty, unless the tag has been begun. -/
theorem Reading.of_ne_nil {state : State} {s t : List Char} (h : Reading state w s p)
    (ht : t ≠ []) :
    Reading state w t p :=
  h.imp_right fun ⟨hstate, hw, hp, _⟩ ↦ ⟨hstate, hw, hp, ht⟩

theorem not_mem_marks_append {run s : List Char} (hrun : ∀ c ∈ run, c ∉ marks)
    (hs : ∀ c ∈ s, c ∉ marks) : ∀ c ∈ run ++ ' ' :: s, c ∉ marks := by
  intro c hc
  obtain hc | hc := List.mem_append.1 hc
  · exact hrun c hc
  · obtain rfl | hc := List.mem_cons.1 hc
    · decide
    · exact hs c hc

/-- The attributes of a tag, after the run `run`, and a mark after them. -/
theorem process_attributes_then {c : Char} {b : UInt8} (hc : String.utf8EncodeChar c = [b])
    (token : Token) (hfind : (getTokens .element).find? (Token.matchesByte · b) = some token)
    (htoken : token ≠ .text) (rest : List Char) (as : List (Attribute doc)) :
    ∀ {run w : List Char} {p : HtmlParser}, Reading .element w run p → (∀ c ∈ run, c ∉ marks) →
      ∃ p₁, InTag .element (w ++ tagContent run as) p₁ ∧
        htmlGrammar.process (p, [])
            (utf8 (run ++ (as.flatMap (fun a ↦ ' ' :: a.text) ++ c :: rest))) =
          (htmlGrammar.processToken p₁ (some token) .null >>= fun p ↦
            htmlGrammar.process ({ p with last := some token }, []) (utf8 rest)) := by
  induction as with
  | nil =>
    intro run w p h hrun
    exact h.process trivial (find_element hrun) hc token hfind htoken rest
  | cons a as ih =>
    intro run w p h hrun
    have hname := not_mem_marks a.isXMLName_name
    rw [List.flatMap_cons, Attribute.text, tagContent]
    cases hvalue : a.value with
    | none =>
      have hattributes := ih (h.of_ne_nil (t := run ++ ' ' :: a.name) (by simp))
        (not_mem_marks_append hrun hname)
      simpa using hattributes
    | some value =>
      obtain ⟨q, v⟩ := value
      have hrun' : ∀ c ∈ run ++ ' ' :: (a.name ++ ['=']), c ∉ marks := by
        refine not_mem_marks_append hrun fun c hc ↦ ?_
        obtain hc | hc := List.mem_append.1 hc
        · exact hname c hc
        · obtain rfl := List.mem_singleton.1 hc
          decide
      have hquote : ∃ b, String.utf8EncodeChar q.char = [b] ∧
          (getTokens .element).find? (Token.matchesByte · b) = some q.token ∧
          (getTokens (.quoted q.token .element)).find? (Token.matchesByte · b) = some q.token := by
        cases q
        · exact ⟨0x22, rfl, rfl, rfl⟩
        · exact ⟨0x27, rfl, rfl, rfl⟩
      have htext : q.token ≠ .text := by
        cases q <;> decide
      obtain ⟨b, hb, hopen, hclose⟩ := hquote
      -- the name, and the quote
      obtain ⟨p₁, h₁, hprocess₁⟩ :=
        (h.of_ne_nil (t := run ++ ' ' :: (a.name ++ ['='])) (by simp)).process trivial
          (find_element hrun') hb q.token hopen htext
          (v ++ q.char :: (as.flatMap (fun a ↦ ' ' :: a.text) ++ c :: rest))
      obtain ⟨p₂, hopen, h₂⟩ := h₁.openQuote q
      -- the value, and the quote
      obtain ⟨p₃, h₃, hprocess₂⟩ := Reading.process (.inl (h₂.with_last (some q.token)))
        htext (find_quoted (a.value_quote q v hvalue) .element) hb q.token hclose htext
        (as.flatMap (fun a ↦ ' ' :: a.text) ++ c :: rest)
      obtain ⟨p₄, hclose, h₄⟩ := h₃.closeQuote
      obtain ⟨p', h', hprocess⟩ := ih (.inl (h₄.with_last (some q.token)))
        fun c (hc : c ∈ []) ↦ nomatch hc
      rw [hopen] at hprocess₁
      rw [hclose] at hprocess₂
      refine ⟨p', by simpa using h', ?_⟩
      rw [← hprocess, List.nil_append]
      refine Eq.trans ?_ hprocess₂
      refine Eq.trans ?_ hprocess₁
      simp

/-- The attributes of a tag, after the run `run`, and the bracket that ends it. -/
theorem process_attributes (as : List (Attribute doc)) :
    ∀ {run w : List Char} {p : HtmlParser}, Reading .element w run p → (∀ c ∈ run, c ∉ marks) →
      ∃ p', htmlGrammar.process (p, [])
          (utf8 (run ++ (as.flatMap (fun a ↦ ' ' :: a.text) ++ ['>']))) = .ok (p', []) ∧
        TagRead (w ++ tagContent run as) p' := by
  intro run w p h hrun
  obtain ⟨p₁, h₁, hprocess⟩ :=
    process_attributes_then (show String.utf8EncodeChar '>' = [0x3E] from rfl) .gt rfl (by decide)
      [] as h hrun
  obtain ⟨p₂, hbracket, h₂⟩ := h₁.endTag
  rw [hprocess, hbracket]
  exact ⟨_, rfl, h₂.stack, h₂.delivered⟩

/-- Of a start tag one element is told, with the text of the tag. -/
theorem parse_tag (t : StartTag doc) : ∃ p, htmlGrammar.parse HtmlParser.new t.text = .ok p ∧
    p.delivered = [.startDocument, .text [],
      .startElement (splitSpace (tagContent t.element t.attributes)).1
        (splitSpace (tagContent t.element t.attributes)).2, .endDocument] := by
  obtain ⟨p₁, hbracket, h₁⟩ :=
    begun_processToken (p := htmlGrammar.begin HtmlParser.new) rfl rfl rfl rfl
  have hne : t.element ≠ [] := by
    intro hnil
    have hname := t.isXMLName_element
    rw [hnil, doc.isXMLName_nil] at hname
    cases hname
  obtain ⟨p₂, hprocess, h₂⟩ := process_attributes t.attributes
    (.inr ⟨rfl, rfl, h₁.with_last (some .lt), hne⟩) (not_mem_marks t.isXMLName_element)
  have hbyte : htmlGrammar.processByte (htmlGrammar.begin HtmlParser.new, []) 0x3C =
      .ok ({ p₁ with last := some .lt }, []) := by
    show (htmlGrammar.processToken (htmlGrammar.begin HtmlParser.new) (some .lt) .null >>=
      fun p ↦ Except.ok ({ p with last := some Token.lt }, [])) = _
    rw [hbracket]
    rfl
  refine ⟨htmlGrammar.end_ p₂, ?_, ?_⟩
  · rw [Grammar.parse, StartTag.text, utf8_cons, List.append_assoc,
      show String.utf8EncodeChar '<' = [0x3C] from rfl, List.singleton_append, Grammar.process,
      List.foldlM_cons, hbyte]
    show (htmlGrammar.process ({ p₁ with last := some .lt }, []) (utf8 _) >>= _) = _
    rw [hprocess]
    rfl
  · show p₂.delivered ++ [_] = _
    rw [h₂.delivered]
    rfl

end JPype.Html
