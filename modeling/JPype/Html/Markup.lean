import JPype.Html.Attributes
import JPype.Html.Frame
import JPype.Html.Marks
import JPype.Html.Tokenization
import JPype.Html.VoidElements
import Mathlib.Data.List.Find

/-!
# Markup

What the grammar of documents tells of tags, directives, comments and sections of character data,
and of the text between them, wherever they stand. What follows the `<` of one is its markup
(`Markup`): it is told when the markup ends, after the text before it, and then the parser is
between tags again (`Grammar.AfterText.markup`).
-/

namespace JPype.Html

open Unicode HtmlGrammar
open Grammar (AfterText Buffered Marks Reads)

namespace HtmlGrammar

/-! ### Marks -/

/-- The token that a character is by itself. -/
def markOf (state : State) (c : Char) : Option Token :=
  (getTokens state).find? fun t ↦ t.text? = some [c]

/-- The states but those of a quoted part. -/
def Plain : State → Prop
  | .quoted _ _ => False
  | _ => True

/-- The tokens are characters of ASCII, and the last one is text. -/
theorem Plain.getTokens_eq {state : State} (h : Plain state) : ∃ tokens,
    getTokens state = tokens ++ [.text] ∧ ∀ t ∈ tokens, ∃ c, t.text? = some [c] ∧ 0 < c.toNat ∧
      c.toNat < 0x80 := by
  have htokens : ∀ t ∈ [Token.bang, .dash, .lt, .gt, .slash, .amp, .semi, .lsb, .rsb, .quote,
      .squote], ∃ c, t.text? = some [c] ∧ 0 < c.toNat ∧ c.toNat < 0x80 := by
    simp [Token.text?]
  cases state with
  | free => exact ⟨[.lt, .amp, .semi], rfl, fun t ht ↦ htokens t (by revert t; decide)⟩
  | element =>
    exact ⟨[.bang, .amp, .lt, .semi, .slash, .gt, .quote, .squote], rfl,
      fun t ht ↦ htokens t (by revert t; decide)⟩
  | directive =>
    exact ⟨[.dash, .lsb, .rsb, .lt, .gt, .quote, .squote], rfl,
      fun t ht ↦ htokens t (by revert t; decide)⟩
  | cdata => exact ⟨[.lsb, .rsb, .gt], rfl, fun t ht ↦ htokens t (by revert t; decide)⟩
  | comment => exact ⟨[.dash, .gt], rfl, fun t ht ↦ htokens t (by revert t; decide)⟩
  | quoted token state => exact h.elim

theorem markOf_eq_some {state : State} {c : Char} {token : Token}
    (h : markOf state c = some token) :
    token.text? = some [c] ∧ token ∈ getTokens state :=
  ⟨by simpa using List.find?_some h, List.mem_of_find?_eq_some h⟩

/-- A token that is a character matches the byte of that character only. -/
theorem matchesByte_iff {t : Token} {c d : Char} (ht : t.text? = some [d]) (hpos : 0 < d.toNat)
    (hd : d.toNat < 0x80) {b : UInt8} (hb : b ∈ String.utf8EncodeChar c) :
    t.matchesByte b = true ↔ d = c := by
  constructor
  · intro hmatch
    by_contra hne
    have hmem : d ∉ [c] := fun hmem ↦ hne (List.mem_singleton.1 hmem)
    have hb' : b ∈ utf8 [c] := by simpa using hb
    rw [matchesByte_eq_false ht hpos hd hmem hb'] at hmatch
    cases hmatch
  · rintro rfl
    rw [← utf8Code_toNat, utf8Code, if_pos hd] at hb
    obtain rfl := List.mem_singleton.1 hb
    rw [Token.matchesByte, Token.value, ht]
    simp

/-- The token of a byte is that of its character. -/
theorem Plain.find_eq {state : State} (h : Plain state) {c : Char} {b : UInt8}
    (hb : b ∈ String.utf8EncodeChar c) :
    (getTokens state).find? (Token.matchesByte · b) = some ((markOf state c).getD .text) := by
  obtain ⟨tokens, heq, htokens⟩ := h.getTokens_eq
  have hmark : markOf state c = tokens.find? (Token.matchesByte · b) := by
    rw [markOf, heq, List.find?_append]
    have hcongr : tokens.find? (fun t ↦ decide (t.text? = some [c])) =
        tokens.find? (Token.matchesByte · b) := by
      refine List.find?_congr fun t ht ↦ ?_
      obtain ⟨d, hd, hpos, hascii⟩ := htokens t ht
      rw [Bool.eq_iff_iff, matchesByte_iff hd hpos hascii hb, hd]
      simp
    rw [hcongr, List.find?_cons_of_neg (by simp [Token.text?]), List.find?_nil, Option.or_none]
  rw [heq, List.find?_append, ← hmark]
  cases markOf state c <;> rfl

theorem marks_markOf {state : State} (h : Plain state) :
    Marks htmlGrammar .text state (markOf state) where
  runs := rfl
  find_mark := by
    intro c token hc
    obtain ⟨htext, hmem⟩ := markOf_eq_some hc
    obtain ⟨tokens, heq, htokens⟩ := h.getTokens_eq
    have hne : token ≠ .text := by
      rintro rfl
      cases htext
    obtain ⟨d, hd, -, hascii⟩ := htokens token (by simpa [heq, hne] using hmem)
    obtain rfl : c = d := by simpa using htext.symm.trans hd
    have hbyte : String.utf8EncodeChar c = [UInt8.ofNat c.toNat] := by
      rw [← utf8Code_toNat, utf8Code, if_pos hascii]
    refine ⟨beq_eq_false_iff_ne.2 hne, _, hbyte, ?_⟩
    refine (h.find_eq (c := c) (by rw [hbyte]; exact List.mem_singleton_self _)).trans ?_
    rw [hc]
    rfl
  find_text := by
    intro c hc b hb
    refine (h.find_eq hb).trans ?_
    rw [hc]
    rfl

end HtmlGrammar

/-! ### Text between tags -/

theorem FreeText.reads (told : List Event) : Reads htmlGrammar .text .free (markOf .free)
    (fun _ c ↦ c ≠ '<') (FreeText told) where
  toMarks := marks_markOf trivial
  state_eq h := h.state
  with_last h _ := ⟨h.state, h.lookahead, h.stack, h.text, h.delivered⟩
  block h block := h.processToken (.inr (.inr rfl)) _
  mark := by
    intro w p c token h hc hne
    obtain ⟨htext, hmem⟩ := markOf_eq_some hc
    have htoken : IsTextToken token := by
      have hlt : token ≠ .lt := by
        rintro rfl
        exact hne (by simpa [Token.text?] using htext.symm)
      have hmem' : token = .lt ∨ IsTextToken token := by
        simpa [getTokens, IsTextToken] using hmem
      exact hmem'.resolve_left hlt
    obtain ⟨p', hprocess, hp', -⟩ := h.processToken htoken .null
    refine ⟨p', hprocess, ?_⟩
    rwa [show HtmlGrammar.toString ⟨token, .null⟩ = [c] by
      simp [HtmlGrammar.toString, Token.toString, htext]] at hp'

/-- The `<` of a tag has been read, and all before it been told. -/
def opened (told : List Event) : HtmlParser :=
  ⟨.element, some .lt, some .beginElementNext, [⟨.lt, .null⟩], told⟩

/-- After `<`, and where the handler is told at once, no rule applies. -/
theorem settle_opened (told : List Event) (last : Option Token) (n : ℕ) :
    htmlGrammar.settle (n + 1) { opened told with last := last } =
      .ok { opened told with last := last } := by
  refine htmlGrammar.settle_of_none rfl ?_ n
  show ∀ rule ∈ [mergeText, startQuote, startElement, endElement, completeElement, escaped,
    cleanup], rule { opened told with last := last } ⟨.lt, .null⟩ = _
  simp only [List.forall_mem_cons]
  refine ⟨matchRule_false (by simp [opened]), ?_, matchRule_false (by simp [opened]), ?_,
    matchRule_false (by simp [opened]), matchRule_false (by simp [opened]), ?_,
    fun _ h ↦ absurd h List.not_mem_nil⟩
  · rw [startQuote, if_neg (by simp)]
  · rw [endElement, endRule]
    exact matchRule_false (by simp [opened])
  · rw [cleanup, if_neg (by simp), if_neg (by simp)]

/-- With the `<` of a tag, the text before it is told. -/
theorem FreeText.processToken_lt {told : List Event} {w : List Char} {p : HtmlParser}
    (h : FreeText told w p) : htmlGrammar.processToken p (some .lt) .null =
      .ok { opened (told ++ [.text w]) with last := p.last } := by
  let p₁ : HtmlParser := { p with stack := ⟨.lt, .null⟩ :: p.stack }
  have hrules : htmlGrammar.getRules p₁.state = [] ++ beginElement :: [escaped, mergeText] := by
    rw [show p₁.state = .free from h.state]
    rfl
  have hbegin : beginElement p₁ ⟨.lt, .null⟩ =
      .ok (true, { opened (told ++ [.text w]) with last := p.last }) := by
    rw [beginElement, if_neg (by simp), ← h.delivered, ← h.text]
    rfl
  rw [htmlGrammar.processToken_of_none h.lookahead, ← settle_opened _ _ (3 * p.stack.length + 3)]
  exact htmlGrammar.settle_of_some rfl hrules (fun _ h ↦ absurd h List.not_mem_nil) hbegin _

/-- What follows the `<` of a tag, of which the handler is told `events`. -/
def Markup (text : List Char) (events : List Event) : Prop :=
  ∀ told, ∃ p, htmlGrammar.process (opened told, []) (utf8 text) = .ok (p, []) ∧
    FreeText (told ++ events) [] p

/-- Markup after a text. -/
theorem Grammar.AfterText.markup {told events : List Event} {w text : List Char}
    {s : Buffered State Token Lookahead Event}
    (h : AfterText htmlGrammar .free (FreeText told) w s) (hmarkup : Markup text events) :
    ∃ p, htmlGrammar.process s (utf8 ('<' :: text)) = .ok (p, []) ∧
      FreeText (told ++ .text w :: events) [] p := by
  have hfind : (HtmlGrammar.getTokens .free).find? (Token.matchesByte · 0x3C) = some .lt := rfl
  obtain ⟨p, hp, hlt⟩ := h.process_token hfind rfl (utf8 text)
  obtain ⟨p', hprocess, hp'⟩ := hmarkup (told ++ [.text w])
  refine ⟨p', hlt.trans ?_, by simpa using hp'⟩
  rw [htmlGrammar.process_token (by rwa [hp.state]) rfl, hp.processToken_lt]
  exact hprocess

/-! ### End tags and directives -/

/-- What begins with a character after `<` and has one text: an end tag, or a directive. -/
inductive Bracket where
  | close
  | declDirective

namespace Bracket

def char : Bracket → Char
  | close => '/'
  | declDirective => '!'

def token : Bracket → Token
  | close => .close
  | declDirective => .declDirective

def state : Bracket → State
  | close => .element
  | declDirective => .directive

def lookahead : Bracket → Option Lookahead
  | close => none
  | declDirective => some .directive

def event : Bracket → List Char → Event
  | close => .endElement
  | declDirective => .directive

end Bracket

/-- After the bracket `k`, the text `w` has been read. -/
structure InBracket (k : Bracket) (told : List Event) (w : List Char) (p : HtmlParser) : Prop where
  state : p.state = k.state
  stack : ∃ b, b.token = k.token ∧ (w = [] ∧ p.stack = [b] ∧ p.lookahead = k.lookahead ∨
    ∃ e, p.stack = [e, b] ∧ p.lookahead = none ∧ e.token = .text ∧ HtmlGrammar.toString e = w ∧
      e.value ≠ .null)
  delivered : p.delivered = told

variable {k : Bracket} {told : List Event} {w : List Char} {p : HtmlParser} {e b : Entity Token}

/-- The rules for an end tag and for a directive apply at its bracket only. -/
theorem endRule_of_ne {begins : Token} {event : List Char → Event} {entity : Entity Token}
    {rest : List (Entity Token)} (hp : p.stack = entity :: rest) (h : entity.token ≠ .gt) :
    endRule begins event p entity = .ok (false, p) :=
  matchRule_false (by simp [hp, h])

/-- After a bracket and one text, no rule applies. -/
theorem settle_inBracket (hstate : p.state = k.state) (hp : p.stack = [e, b])
    (he : e.token = .text) (hb : b.token = k.token) (n : ℕ) :
    htmlGrammar.settle (n + 1) p = .ok p := by
  have hmerge : mergeText p e = .ok (false, p) :=
    matchRule_false (by cases k <;> simp [hp, he, hb, Bracket.token])
  have hquote : startQuote p e = .ok (false, p) := by
    rw [startQuote, if_neg (by simp [he])]
  refine htmlGrammar.settle_of_none hp ?_ n
  rw [hstate]
  cases k with
  | close =>
    show ∀ rule ∈ [mergeText, startQuote, startElement, endElement, completeElement, escaped,
      cleanup], rule p e = .ok (false, p)
    simp only [List.forall_mem_cons]
    refine ⟨hmerge, hquote, matchRule_false (by simp [hp]), endRule_of_ne hp (by simp [he]),
      matchRule_false (by simp [hp]), matchRule_false (by simp [hp]), ?_,
      fun _ h ↦ absurd h List.not_mem_nil⟩
    rw [cleanup, if_neg (by simp [he]), if_neg (by simp [he])]
  | declDirective =>
    show ∀ rule ∈ [startQuote, endDirective, mergeText], rule p e = .ok (false, p)
    simp only [List.forall_mem_cons]
    exact ⟨hquote, endRule_of_ne hp (by simp [he]), hmerge, fun _ h ↦ absurd h List.not_mem_nil⟩

/-- A text on the text after a bracket is merged with it. -/
theorem settle_mergeText (hstate : p.state = k.state) {s : List Char}
    (hp : p.stack = [⟨.text, .string s⟩, e, b]) (he : e.token = .text) (hb : b.token = k.token)
    (n : ℕ) : htmlGrammar.settle (n + 2) p = .ok { p with stack := [promoteAppend e s, b] } := by
  have htext : (promoteAppend e s).token = .text := by
    rw [promoteAppend]
    split
    · exact he
    · rfl
  have hmerge : mergeText p ⟨.text, .string s⟩ =
      .ok (true, { p with stack := [promoteAppend e s, b] }) := by
    rw [mergeText, matchRule, if_pos (by simp [hp, he]), hp]
    rfl
  rw [← settle_inBracket (p := { p with stack := [promoteAppend e s, b] }) hstate rfl htext hb n]
  cases k with
  | close =>
    have hrules : htmlGrammar.getRules p.state = [] ++ mergeText ::
        [startQuote, startElement, endElement, completeElement, escaped, cleanup] :=
      congrArg getRules hstate
    exact htmlGrammar.settle_of_some hp hrules (fun _ h ↦ absurd h List.not_mem_nil) hmerge _
  | declDirective =>
    have hrules : htmlGrammar.getRules p.state = [startQuote, endDirective] ++ mergeText :: [] :=
      congrArg getRules hstate
    refine htmlGrammar.settle_of_some hp hrules ?_ hmerge _
    simp only [List.forall_mem_cons]
    refine ⟨?_, endRule_of_ne hp (by simp), fun _ h ↦ absurd h List.not_mem_nil⟩
    rw [startQuote, if_neg (by simp)]

theorem InBracket.feedBlock (h : InBracket k told w p) (block : List UInt8) :
    ∃ p', htmlGrammar.feedBlock .text p block = .ok p' ∧
      InBracket k told (w ++ decodeUtf8 block) p' ∧ p'.last = p.last := by
  obtain ⟨b, hb, ⟨rfl, hp, hlookahead⟩ | ⟨e, hp, hlookahead, he, hw, hvalue⟩⟩ := h.stack
  · let p' : HtmlParser := { p with
      stack := [⟨.text, .string (decodeUtf8 block)⟩, b]
      lookahead := none }
    have hsettle : ∀ n, htmlGrammar.settle (n + 1) p' = .ok p' :=
      settle_inBracket h.state rfl rfl hb
    refine ⟨p', ?_, ⟨h.state, ⟨b, hb, .inr ⟨_, rfl, rfl, rfl, rfl, by simp⟩⟩, h.delivered⟩, rfl⟩
    rw [Grammar.feedBlock, Grammar.processToken, hlookahead, hp]
    cases k with
    | close => exact hsettle _
    | declDirective => exact hsettle _
  · refine ⟨{ p with stack := [promoteAppend e (decodeUtf8 block), b] }, ?_, ⟨h.state, ⟨b, hb,
      .inr ⟨_, rfl, hlookahead, ?_, by rw [toString_promoteAppend, hw], ?_⟩⟩, h.delivered⟩, rfl⟩
    · rw [Grammar.feedBlock, htmlGrammar.processToken_of_none hlookahead, hp]
      exact settle_mergeText
        (p := { p with stack := [⟨.text, .string (decodeUtf8 block)⟩, e, b] }) h.state rfl he hb _
    · rw [promoteAppend]
      split
      · exact he
      · rfl
    · rw [promoteAppend]
      split <;> simp

theorem InBracket.reads (k : Bracket) (told : List Event) :
    Reads htmlGrammar .text k.state (markOf k.state) (fun _ _ ↦ False) (InBracket k told) where
  toMarks := marks_markOf (by cases k <;> trivial)
  state_eq h := h.state
  with_last h _ := ⟨h.state, h.stack, h.delivered⟩
  block h block := h.feedBlock block
  mark _ _ h := h.elim

/-- The bracket that ends it. -/
theorem InBracket.processToken_gt (h : InBracket k told w p) (hw : w ≠ []) :
    ∃ p', htmlGrammar.processToken p (some .gt) .null = .ok p' ∧
      ∀ last, FreeText (told ++ [k.event w]) [] { p' with last := last } := by
  obtain ⟨b, hb, ⟨rfl, -⟩ | ⟨e, hp, hlookahead, he, rfl, hvalue⟩⟩ := h.stack
  · exact absurd rfl hw
  let p₁ : HtmlParser := { p with stack := [⟨.gt, .null⟩, e, b] }
  let p' : HtmlParser := { p with
    stack := []
    state := .free
    delivered := p.delivered ++ [k.event (HtmlGrammar.toString e)] }
  have hend : endRule k.token k.event p₁ ⟨.gt, .null⟩ = .ok (true, p') := by
    rw [endRule, matchRule, if_pos (by simp [p₁, he, hb])]
    dsimp only [p₁]
    rw [content_of_ne_null hvalue]
    rfl
  have hmerge : mergeText p₁ ⟨.gt, .null⟩ = .ok (false, p₁) :=
    matchRule_false (by simp [p₁])
  have hquote : startQuote p₁ ⟨.gt, .null⟩ = .ok (false, p₁) := by
    rw [startQuote, if_neg (by simp)]
  refine ⟨p', ?_, fun last ↦ ⟨rfl, hlookahead, fun _ he ↦ absurd he List.not_mem_nil, rfl, ?_⟩⟩
  · rw [htmlGrammar.processToken_of_none hlookahead, hp]
    cases k with
    | close =>
      have hrules : htmlGrammar.getRules p₁.state = [mergeText, startQuote, startElement] ++
          endElement :: [completeElement, escaped, cleanup] := congrArg getRules h.state
      refine htmlGrammar.settle_of_some rfl hrules ?_ hend 10
      simp only [List.forall_mem_cons]
      refine ⟨hmerge, hquote, matchRule_false ?_, fun _ h ↦ absurd h List.not_mem_nil⟩
      simp [p₁, hb, Bracket.token]
    | declDirective =>
      have hrules : htmlGrammar.getRules p₁.state = [startQuote] ++ endDirective ::
          [mergeText] := congrArg getRules h.state
      refine htmlGrammar.settle_of_some rfl hrules ?_ hend 10
      simp only [List.forall_mem_cons]
      exact ⟨hquote, fun _ h ↦ absurd h List.not_mem_nil⟩
  · show p.delivered ++ _ = _
    rw [h.delivered]

/-- An end tag, or a directive, of one text without marks. -/
theorem markup_bracket {text : List Char} (hne : text ≠ [])
    (hmarks : ∀ c ∈ text, markOf k.state c = none) (hunsplit : Unsplit 0 text) :
    Markup (k.char :: (text ++ ['>'])) [k.event text] := by
  intro told
  let p₁ : HtmlParser := ⟨k.state, none, k.lookahead, [⟨k.token, .null⟩], told⟩
  have hopen : ∃ last, htmlGrammar.process (opened told, []) (utf8 (k.char :: (text ++ ['>']))) =
      htmlGrammar.process ({ p₁ with last := last }, []) (utf8 (text ++ ['>'])) := by
    cases k with
    | close =>
      have hfind : (getTokens .element).find? (Token.matchesByte · 0x2F) = some .slash := rfl
      exact ⟨_, htmlGrammar.process_token (p := opened told) hfind rfl _⟩
    | declDirective =>
      have hfind : (getTokens .element).find? (Token.matchesByte · 0x21) = some .bang := rfl
      exact ⟨_, htmlGrammar.process_token (p := opened told) hfind rfl _⟩
  obtain ⟨last, hopen⟩ := hopen
  have h₁ : InBracket k told [] { p₁ with last := last } :=
    ⟨rfl, ⟨_, rfl, .inl ⟨rfl, rfl, rfl⟩⟩, rfl⟩
  obtain ⟨p₂, h₂, hprocess⟩ := (InBracket.reads k told).process_then h₁
    (Grammar.unsplitRuns_of_unsplit hmarks hunsplit) (Grammar.allowed_of_none hmarks)
    (c := '>') (by cases k <;> rfl) []
  obtain ⟨p', hgt, hp'⟩ := h₂.processToken_gt hne
  have hfind : (getTokens p₂.state).find? (Token.matchesByte · 0x3E) = some .gt := by
    rw [h₂.state]
    cases k <;> rfl
  refine ⟨_, ?_, hp' (some .gt)⟩
  rw [hopen, hprocess]
  refine (htmlGrammar.process_token hfind rfl _).trans ?_
  rw [hgt]
  rfl

/-! ### Comments and sections of character data -/

/-- What is told as it is written, up to a character twice and `>`: a comment, or a section of
character data. -/
inductive Section where
  | comment
  | cdata

namespace Section

def begins : Section → List Char
  | comment => ['!', '-', '-']
  | cdata => ['!', '[', 'C', 'D', 'A', 'T', 'A', '[']

def char : Section → Char
  | comment => '-'
  | cdata => ']'

def token : Section → Token
  | comment => .dash
  | cdata => .rsb

def state : Section → State
  | comment => .comment
  | cdata => .cdata

def lookahead : Section → Option Lookahead
  | comment => some .commentNext
  | cdata => none

def event : Section → List Char → Event
  | comment => .comment
  | cdata => .cdata

def endRule : Section → HtmlRule
  | comment => endComment
  | cdata => endCData

/-- A comment does not begin with a dash or a bracket, and after the character twice there is no
bracket. -/
def Guard (k : Section) (w : List Char) (c : Char) : Prop :=
  (k = comment → w ≠ []) ∧ (c = '>' → ¬[k.char, k.char] <:+ w)

end Section

/-- In the section `k`, the text `w` has been read. -/
structure InSection (k : Section) (told : List Event) (w : List Char) (p : HtmlParser) : Prop where
  state : p.state = k.state
  lookahead : p.lookahead = none ∨ w = [] ∧ p.lookahead = k.lookahead
  stack : ∀ e ∈ p.stack, e.token ∈ getTokens k.state ∧
    (e.token = k.token → HtmlGrammar.toString e = [k.char])
  text : joined p.stack = w
  delivered : p.delivered = told

section InSection

variable {k : Section} {told : List Event} {w : List Char} {p : HtmlParser}
  {entity : Entity Token} {rest : List (Entity Token)}

/-- In a section, no rule applies but at its end. -/
theorem settle_inSection (hstate : p.state = k.state) (hp : p.stack = entity :: rest)
    (hstack : ∀ e ∈ p.stack, e.token ∈ getTokens k.state)
    (hend : (p.stack.take 3).map Entity.token ≠ [.gt, k.token, k.token]) (n : ℕ) :
    htmlGrammar.settle (n + 1) p = .ok p := by
  refine htmlGrammar.settle_of_none hp ?_ n
  rw [hstate]
  cases k with
  | comment =>
    show ∀ rule ∈ [endComment, startComment], rule p entity = .ok (false, p)
    simp only [List.forall_mem_cons]
    refine ⟨matchRule_false hend, matchRule_false fun hmatch ↦ ?_,
      fun _ h ↦ absurd h List.not_mem_nil⟩
    obtain ⟨e3, e2, e1, e0, rest, hp, -, -, he1, -⟩ := stack_of_four hmatch
    have hmem := hstack e1 (by simp [hp])
    rw [he1] at hmem
    exact absurd hmem (by decide)
  | cdata =>
    show ∀ rule ∈ [endCData], rule p entity = .ok (false, p)
    simp only [List.forall_mem_cons]
    exact ⟨matchRule_false hend, fun _ h ↦ absurd h List.not_mem_nil⟩

namespace InSection

theorem with_last (h : InSection k told w p) (last : Option Token) :
    InSection k told w { p with last := last } :=
  ⟨h.state, h.lookahead, h.stack, h.text, h.delivered⟩

theorem push (h : InSection k told w p) {token : Token} {value : EntityValue}
    (htoken : token ∈ getTokens k.state)
    (hvalue : token = k.token → HtmlGrammar.toString ⟨token, value⟩ = [k.char]) :
    InSection k told (w ++ HtmlGrammar.toString ⟨token, value⟩)
      { p with stack := ⟨token, value⟩ :: p.stack, lookahead := none } := by
  refine ⟨h.state, .inl rfl, List.forall_mem_cons.2 ⟨⟨htoken, hvalue⟩, h.stack⟩, ?_, h.delivered⟩
  rw [joined_cons, h.text]

/-- A token is read that does not end the section. -/
theorem processToken (h : InSection k told w p) {token : Token} {value : EntityValue}
    (htoken : token ∈ getTokens k.state)
    (hvalue : token = k.token → HtmlGrammar.toString ⟨token, value⟩ = [k.char])
    (hnext : token = .text ∨ (k = .comment → w ≠ []))
    (hend : token = .gt → ¬[k.char, k.char] <:+ w) :
    htmlGrammar.processToken p (some token) value =
      .ok { p with stack := ⟨token, value⟩ :: p.stack, lookahead := none } := by
  have hpush := h.push htoken hvalue
  let p' : HtmlParser := { p with stack := ⟨token, value⟩ :: p.stack, lookahead := none }
  have hsettle : ∀ n, htmlGrammar.settle (n + 1) p' = .ok p' := by
    refine settle_inSection hpush.state rfl (fun e he ↦ (hpush.stack e he).1) ?_
    intro hmatch
    -- the rule looks at the tokens, of which the text has the characters
    obtain ⟨e2, e1, e0, rest, hp, he2, he1, he0⟩ := stack_of_three hmatch
    obtain ⟨rfl, hstack⟩ : ⟨token, value⟩ = e2 ∧ p.stack = e1 :: e0 :: rest := by
      simpa [p'] using hp
    refine hend he2 ⟨joined rest, ?_⟩
    rw [← h.text, hstack, joined_cons, joined_cons, (h.stack e1 (by simp [hstack])).2 he1,
      (h.stack e0 (by simp [hstack])).2 he0]
    simp
  rw [Grammar.processToken]
  obtain hlookahead | ⟨rfl, hlookahead⟩ := h.lookahead
  · rw [hlookahead]
    exact hsettle _
  · cases k with
    | comment =>
      obtain rfl := hnext.resolve_right fun hne ↦ hne rfl rfl
      rw [hlookahead]
      exact hsettle _
    | cdata =>
      rw [hlookahead]
      exact hsettle _

end InSection

theorem InSection.reads (k : Section) (told : List Event) :
    Reads htmlGrammar .text k.state (markOf k.state) k.Guard (InSection k told) where
  toMarks := marks_markOf (by cases k <;> trivial)
  state_eq h := h.state
  with_last h last := h.with_last last
  block := by
    intro w p h block
    have htext : Token.text ∈ getTokens k.state := by
      cases k <;> decide
    have hne : ∀ {P : Prop}, Token.text = k.token → P := by
      cases k <;> exact fun h ↦ absurd h (by decide)
    have hpush : InSection k told
        (w ++ HtmlGrammar.toString ⟨.text, .string (decodeUtf8 block)⟩) { p with
          stack := ⟨.text, .string (decodeUtf8 block)⟩ :: p.stack, lookahead := none } :=
      h.push htext hne
    exact ⟨_, h.processToken htext hne (.inl rfl) fun h ↦ absurd h (by decide), hpush, rfl⟩
  mark := by
    intro w p c token h hc hguard
    obtain ⟨htext, hmem⟩ := markOf_eq_some hc
    have hchar : HtmlGrammar.toString ⟨token, .null⟩ = [c] := by
      simp [HtmlGrammar.toString, Token.toString, htext]
    have hends : token = k.token → HtmlGrammar.toString ⟨token, .null⟩ = [k.char] := by
      rintro rfl
      cases k <;> rfl
    have hgt : token = .gt → ¬[k.char, k.char] <:+ w := by
      rintro rfl
      exact hguard.2 (by simpa [Token.text?] using htext.symm)
    refine ⟨_, h.processToken hmem hends (.inr hguard.1) hgt, ?_⟩
    rw [← hchar]
    exact h.push hmem hends

/-- The rule for the end of a section. -/
theorem Section.endRule_eq {gt b a : Entity Token} (hp : p.stack = gt :: b :: a :: entity :: rest)
    (hgt : gt.token = .gt) (hb : b.token = k.token) (ha : a.token = k.token) (e : Entity Token) :
    k.endRule p e = .ok (true, { p with
      stack := []
      state := .free
      delivered := p.delivered ++ [k.event (joined (entity :: rest))] }) := by
  cases k with
  | comment =>
    show endComment p e = _
    rw [endComment, matchRule, if_pos (by simp [hp, hgt, hb, ha, Section.token]), hp]
    rfl
  | cdata =>
    show endCData p e = _
    rw [endCData, matchRule, if_pos (by simp [hp, hgt, hb, ha, Section.token]), hp]
    rfl

/-- The character that ends a section, where more has to come. -/
theorem InSection.process_char (h : InSection k told w p) (hw : w ≠ []) (rest : List Char) :
    ∃ p', htmlGrammar.process (p, []) (utf8 (k.char :: rest)) =
        htmlGrammar.process (p', []) (utf8 rest) ∧
      InSection k told (w ++ [k.char]) p' ∧ p'.lookahead = none ∧
      p'.stack = ⟨k.token, .null⟩ :: p.stack := by
  have htoken : k.token ∈ getTokens k.state := by
    cases k <;> decide
  have hchar : HtmlGrammar.toString ⟨k.token, .null⟩ = [k.char] := by
    cases k <;> rfl
  have hgt : k.token = .gt → ¬[k.char, k.char] <:+ w := by
    cases k <;> exact fun h ↦ absurd h (by decide)
  have hpush := (h.push htoken fun _ ↦ hchar).with_last (some k.token)
  rw [hchar] at hpush
  refine ⟨_, ?_, hpush, rfl, rfl⟩
  have hprocess := h.processToken htoken (fun _ ↦ hchar) (.inr fun _ ↦ hw) hgt
  obtain ⟨b, hb, hfind⟩ : ∃ b, String.utf8EncodeChar k.char = [b] ∧
      (getTokens p.state).find? (Token.matchesByte · b) = some k.token := by
    rw [h.state]
    cases k
    · exact ⟨0x2D, rfl, rfl⟩
    · exact ⟨0x5D, rfl, rfl⟩
  rw [utf8_cons, hb, List.singleton_append, htmlGrammar.process_token hfind (by cases k <;> rfl),
    hprocess]
  rfl

/-- The end of a section, after its text. -/
theorem InSection.process_end (h : InSection k told w p) (hw : w ≠ []) :
    ∃ p', htmlGrammar.process (p, []) (utf8 [k.char, k.char, '>']) = .ok (p', []) ∧
      FreeText (told ++ [k.event w]) [] p' := by
  obtain ⟨p₁, hprocess₁, h₁, -, hp₁⟩ := h.process_char hw [k.char, '>']
  obtain ⟨p₂, hprocess₂, h₂, hlookahead, hp₂⟩ := h₁.process_char (by simp) ['>']
  obtain ⟨entity, rest, hp⟩ : ∃ entity rest, p.stack = entity :: rest := by
    refine List.exists_cons_of_ne_nil fun hnil ↦ hw ?_
    rw [← h.text, hnil]
    rfl
  rw [hp₁, hp] at hp₂
  let p₃ : HtmlParser := { p₂ with stack := ⟨.gt, .null⟩ :: p₂.stack }
  let p' : HtmlParser := { p₃ with
    stack := []
    state := .free
    delivered := p₃.delivered ++ [k.event (joined (entity :: rest))] }
  have hend : k.endRule p₃ ⟨.gt, .null⟩ = .ok (true, p') :=
    Section.endRule_eq (by rw [← hp₂]) rfl rfl rfl _
  have hrules : ∃ after, htmlGrammar.getRules p₃.state = [] ++ k.endRule :: after := by
    rw [show p₃.state = k.state from h₂.state]
    cases k
    · exact ⟨_, rfl⟩
    · exact ⟨_, rfl⟩
  obtain ⟨after, hrules⟩ := hrules
  have hprocess₃ : htmlGrammar.processToken p₂ (some .gt) .null = .ok p' := by
    rw [htmlGrammar.processToken_of_none hlookahead]
    exact htmlGrammar.settle_of_some rfl hrules (fun _ h ↦ absurd h List.not_mem_nil) hend _
  have hfind : (getTokens p₂.state).find? (Token.matchesByte · 0x3E) = some .gt := by
    rw [h₂.state]
    cases k <;> rfl
  refine ⟨{ p' with last := some .gt }, ?_, rfl, hlookahead,
    fun _ he ↦ absurd he List.not_mem_nil, rfl, ?_⟩
  · rw [hprocess₁, hprocess₂]
    refine (htmlGrammar.process_token hfind rfl _).trans ?_
    rw [hprocess₃]
    rfl
  · show p₂.delivered ++ [k.event (joined (entity :: rest))] = _
    rw [h₂.delivered, ← hp, h.text]

/-- What may be written in a section: it is not empty, its end does not come early, and the text of
a comment does not begin with a dash or a bracket. -/
structure Section.Fits (k : Section) (text : List Char) : Prop where
  ne_nil : text ≠ []
  begins : k = comment → ∀ c ∈ text.head?, c ≠ '-' ∧ c ≠ '>'
  ends : ¬[k.char, k.char, '>'] <:+: text
  unsplit : Grammar.UnsplitRuns (markOf k.state) 0 text

theorem Section.Fits.allowed {text : List Char} (h : k.Fits text) :
    Grammar.Allowed (markOf k.state) k.Guard [] text := by
  rintro u c v rfl hc
  rw [List.nil_append]
  refine ⟨?_, ?_⟩
  · rintro rfl rfl
    obtain ⟨hdash, hgt⟩ := h.begins rfl c rfl
    simp [markOf, Section.state, getTokens, Token.text?, hdash.symm, hgt.symm] at hc
  · rintro rfl ⟨t, rfl⟩
    exact h.ends ⟨t, v, by simp⟩

/-- A comment, or a section of character data. -/
theorem markup_section {text : List Char} (h : k.Fits text) :
    Markup (k.begins ++ (text ++ [k.char, k.char, '>'])) [k.event text] := by
  intro told
  let p₁ : HtmlParser := ⟨k.state, none, k.lookahead, [], told⟩
  obtain ⟨last, hopen⟩ : ∃ last, ∀ rest,
      htmlGrammar.process (opened told, []) (utf8 (k.begins ++ rest)) =
        htmlGrammar.process ({ p₁ with last := last }, []) (utf8 rest) := by
    cases k
    · exact ⟨_, fun rest ↦ rfl⟩
    · exact ⟨_, fun rest ↦ rfl⟩
  have h₁ : InSection k told [] { p₁ with last := last } :=
    ⟨rfl, .inr ⟨rfl, rfl⟩, fun _ he ↦ absurd he List.not_mem_nil, rfl, rfl⟩
  obtain ⟨p₂, h₂, hprocess⟩ := (InSection.reads k told).process_then h₁ h.unsplit h.allowed
    (c := k.char) (by cases k <;> rfl) [k.char, '>']
  obtain ⟨p', hend, hp'⟩ := h₂.process_end h.ne_nil
  exact ⟨p', (hopen _).trans (hprocess.trans hend), hp'⟩

end InSection

/-! ### Start tags -/

section StartTag

variable {doc : Document} (t : StartTag doc)

/-- A start tag, as it is written between its brackets. -/
def StartTag.inner : List Char :=
  t.element ++ t.attributes.flatMap fun a ↦ ' ' :: a.text

/-- What is read after the `<` of a document makes no difference elsewhere. -/
theorem markup_of_process {text : List Char} {events : List Event} {p : HtmlParser}
    (hprocess : htmlGrammar.process (opened [.startDocument, .text []], []) (utf8 text) =
      .ok (p, []))
    (hp : FreeText ([.startDocument, .text []] ++ events) [] p) : Markup text events := by
  intro told
  refine ⟨{ p with delivered := told ++ events },
    frames_htmlGrammar.process_of_told hprocess hp.delivered told, ?_⟩
  exact ⟨hp.state, hp.lookahead, hp.stack, hp.text, rfl⟩

/-- The text of a start tag, and a mark after it. -/
theorem process_inner {c : Char} {b : UInt8} (hc : String.utf8EncodeChar c = [b]) (token : Token)
    (hfind : (getTokens .element).find? (Token.matchesByte · b) = some token)
    (htoken : token ≠ .text) (rest : List Char) :
    ∃ p, InTag .element (tagContent t.element t.attributes) p ∧
      htmlGrammar.process (opened [.startDocument, .text []], []) (utf8 (t.inner ++ c :: rest)) =
        (htmlGrammar.processToken p (some token) .null >>= fun p ↦
          htmlGrammar.process ({ p with last := some token }, []) (utf8 rest)) := by
  have hbegun : Begun (opened [.startDocument, .text []]) := ⟨rfl, rfl, ⟨_, rfl, rfl⟩, rfl⟩
  have hne : t.element ≠ [] := AttrGrammar.ne_nil_of_isXMLName t.isXMLName_element
  obtain ⟨p, hp, hprocess⟩ := process_attributes_then hc token hfind htoken rest t.attributes
    (.inr ⟨rfl, rfl, hbegun, hne⟩) (not_mem_marks t.isXMLName_element)
  refine ⟨p, hp, ?_⟩
  rw [StartTag.inner, List.append_assoc]
  exact hprocess

theorem markup_startTag : Markup (t.inner ++ ['>'])
    [.startElement (splitSpace (tagContent t.element t.attributes)).1
      (splitSpace (tagContent t.element t.attributes)).2] := by
  obtain ⟨p, hp, hprocess⟩ := process_inner t (show String.utf8EncodeChar '>' = [0x3E] from rfl)
    .gt rfl (by decide) []
  rw [hp.processToken_gt] at hprocess
  refine markup_of_process hprocess
    ⟨rfl, hp.lookahead, fun _ he ↦ absurd he List.not_mem_nil, rfl, ?_⟩
  show p.delivered ++ _ = _
  rw [hp.delivered]

/-- The tag of an element that is complete. -/
theorem markup_completeTag : Markup (t.inner ++ ['/', '>'])
    (completed (tagContent t.element t.attributes)) := by
  obtain ⟨p, hp, hprocess⟩ := process_inner t (show String.utf8EncodeChar '/' = [0x2F] from rfl)
    .slash rfl (by decide) ['>']
  obtain ⟨e, lt, hstack, he, hlt, hw, hvalue⟩ := hp.stack
  let p₁ : HtmlParser := { p with
    stack := [⟨.slash, .null⟩, e, lt]
    lookahead := some .cleanupNext
    last := some .slash }
  have hgt := processToken_gt (p := p₁) hp.state rfl rfl he hlt (content_of_ne_null hvalue)
  have hfind : (getTokens p₁.state).find? (Token.matchesByte · 0x3E) = some .gt := by
    rw [show p₁.state = .element from hp.state]
    rfl
  rw [processToken_slash hp.state hp.lookahead hstack] at hprocess
  replace hprocess := hprocess.trans (htmlGrammar.process_token (p := p₁) hfind rfl _)
  rw [hgt] at hprocess
  refine markup_of_process hprocess ⟨rfl, rfl, fun _ he ↦ absurd he List.not_mem_nil, rfl, ?_⟩
  show p.delivered ++ _ = _
  rw [hp.delivered, hw]

end StartTag

end JPype.Html
