import JPype.Html.HtmlGrammar

/-!
# Lossless tokenization

However the bytes of a document arrive, the handler is told of the same events. But text is told
only when a tag begins after it: what is on the stack at the end of a document is left there. A
document of nothing but text loses all of it.
-/

namespace JPype.Html

open Unicode HtmlGrammar

/-- The text that the handler is told of. -/
def deliveredText (events : List Event) : List Char :=
  events.flatMap fun
    | .text s => s
    | _ => []

/-- Parsing a document comes to an end, is independent of the reads of the stream, whatever the
parser has been used for before, and delivers a text without tags as it is. -/
structure LosslessTokenization (doc : List Char) : Prop where
  terminates : ∀ p', htmlGrammar.parse HtmlParser.new doc ≠ .error (.nontermination, p')
  stream : ∀ (p : HtmlParser) (reads : List (List UInt8)),
    (∀ bytes ∈ reads, bytes.length ≤ Grammar.capacity) → reads.flatten = utf8 doc →
      htmlGrammar.parseStream p reads = htmlGrammar.parse p doc
  text : '<' ∉ doc →
    ∃ p, htmlGrammar.parse HtmlParser.new doc = .ok p ∧ deliveredText p.delivered = doc

/-- A token of text in the state `free`. -/
def IsTextToken (t : Token) : Prop :=
  t = .amp ∨ t = .semi ∨ t = .text

theorem isTextToken_promoteAppend {e : Entity Token} (h : IsTextToken e.token) (s : List Char) :
    IsTextToken (promoteAppend e s).token := by
  rw [promoteAppend]
  split
  · exact h
  · exact .inr (.inr rfl)

@[simp]
theorem toString_promoteAppend (e : Entity Token) (s : List Char) :
    toString (promoteAppend e s) = toString e ++ s := by
  rw [promoteAppend]
  split
  · next t ht => simp [HtmlGrammar.toString, ht]
  · rfl

@[simp]
theorem joined_cons (e : Entity Token) (stack : List (Entity Token)) :
    joined (e :: stack) = joined stack ++ toString e := by
  simp [joined]

/-- Between tags, the text `w` has been read after what has been told. -/
structure FreeText (told : List Event) (w : List Char) (p : HtmlParser) : Prop where
  state : p.state = .free
  lookahead : p.lookahead = none
  stack : ∀ e ∈ p.stack, IsTextToken e.token
  text : joined p.stack = w
  delivered : p.delivered = told

namespace FreeText

variable {told : List Event} {w : List Char} {p : HtmlParser} {entity : Entity Token}
  {rest : List (Entity Token)} {last : Option Token}

theorem with_stack (h : FreeText told w p) {stack : List (Entity Token)}
    (hstack : ∀ e ∈ stack, IsTextToken e.token) (htext : joined stack = w) :
    FreeText told w { p with stack := stack } :=
  ⟨h.state, h.lookahead, hstack, htext, h.delivered⟩

/-- What rules make of the text: they merge entities, so that it stays the same. -/
def Keeps (told : List Event) (w : List Char) (last : Option Token) (p : HtmlParser) : Prop :=
  FreeText told w p ∧ p.last = last

theorem rule (h : Keeps told w last p) (hp : p.stack = entity :: rest) :
    ∀ rule ∈ getRules .free, Outcome (· = .nontermination)
      (fun r : Bool × HtmlParser ↦ Keeps told w last r.2 ∧ r.2.stack ≠ []) (rule p entity) := by
  obtain ⟨h, hlast⟩ := h
  have hstack := h.stack
  have htext := h.text
  have hsame : Keeps told w last p ∧ p.stack ≠ [] := ⟨⟨h, hlast⟩, by simp [hp]⟩
  simp only [getRules, List.forall_mem_cons]
  refine ⟨?_, ?_, ?_, fun _ h ↦ absurd h List.not_mem_nil⟩
  · have hlt : entity.token ≠ .lt := by
      have hentity := hstack entity (by simp [hp])
      rintro heq
      simp [heq, IsTextToken] at hentity
    rw [beginElement, if_pos hlt]
    exact hsame
  · refine Outcome.matchRule (fun hmatch ↦ ?_) hsame
    obtain ⟨e2, e1, e0, rest, hp, -⟩ := stack_of_three hmatch
    rw [hp] at hstack htext ⊢
    refine ⟨⟨h.with_stack (fun e he ↦ ?_) ?_, hlast⟩, List.cons_ne_nil _ _⟩
    · obtain rfl | he := List.mem_cons.1 he
      · exact isTextToken_promoteAppend (hstack e0 (by simp)) _
      · exact hstack e (by simp [he])
    · rw [← htext]
      simp
  · refine Outcome.matchRule (fun hmatch ↦ ?_) hsame
    obtain ⟨t2, t1, rest, hp, -⟩ := stack_of_two hmatch
    rw [hp] at hstack htext ⊢
    refine ⟨⟨h.with_stack (fun e he ↦ ?_) ?_, hlast⟩, List.cons_ne_nil _ _⟩
    · obtain rfl | he := List.mem_cons.1 he
      · exact isTextToken_promoteAppend (hstack t1 (by simp)) _
      · exact hstack e (by simp [he])
    · rw [← htext]
      simp

theorem applyRules (rules : List HtmlRule) (hrules : ∀ rule ∈ rules, rule ∈ getRules .free) :
    ∀ p : HtmlParser, Keeps told w last p ∧ p.stack ≠ [] → Outcome (· = .nontermination)
      (fun r : Bool × HtmlParser ↦ Keeps told w last r.2 ∧ r.2.stack ≠ [])
      (Grammar.applyRules rules p) := by
  induction rules with
  | nil => exact fun p h ↦ h
  | cons rule rules ih =>
    rw [List.forall_mem_cons] at hrules
    rintro p ⟨h, hne⟩
    obtain ⟨entity, rest, hp⟩ := List.exists_cons_of_ne_nil hne
    rw [Grammar.applyRules, hp]
    refine (FreeText.rule h hp rule hrules.1).bind fun r hr ↦ ?_
    obtain ⟨applied, p'⟩ := r
    cases applied with
    | true => exact hr
    | false => exact ih hrules.2 p' hr

theorem settle (n : ℕ) : ∀ p, Keeps told w last p →
    Outcome (· = .nontermination) (Keeps told w last) (htmlGrammar.settle n p) := by
  induction n with
  | zero => exact fun p _ ↦ rfl
  | succ n ih =>
    intro p h
    rw [Grammar.settle]
    split
    · exact h
    · next hp =>
      have hrules : htmlGrammar.getRules p.state = getRules .free := by rw [h.1.state]; rfl
      rw [hrules]
      refine (applyRules _ (fun _ hr ↦ hr) p ⟨h, by simp [hp]⟩).bind fun r hr ↦ ?_
      obtain ⟨applied, p'⟩ := r
      cases applied with
      | true => exact ih p' hr.1
      | false => exact hr.1

/-- A token of text is read. -/
theorem outcome_processToken (h : FreeText told w p) {token : Token} (htoken : IsTextToken token)
    (value : EntityValue) : Outcome (· = .nontermination)
      (Keeps told (w ++ HtmlGrammar.toString ⟨token, value⟩) p.last)
      (htmlGrammar.processToken p (some token) value) := by
  rw [htmlGrammar.processToken_of_none h.lookahead]
  refine settle _ _ ⟨⟨h.state, h.lookahead, fun e he ↦ ?_, ?_, h.delivered⟩, rfl⟩
  · obtain rfl | he := List.mem_cons.1 he
    · exact htoken
    · exact h.stack e he
  · rw [← h.text]
    simp

theorem processToken (h : FreeText told w p) {token : Token} (htoken : IsTextToken token)
    (value : EntityValue) : ∃ p', htmlGrammar.processToken p (some token) value = .ok p' ∧
      FreeText told (w ++ HtmlGrammar.toString ⟨token, value⟩) p' ∧ p'.last = p.last := by
  have hgetTokens : token ∈ htmlGrammar.getTokens p.state := by
    rw [h.state]
    obtain rfl | rfl | rfl := htoken <;> simp [htmlGrammar, getTokens]
  have hends := terminating.processToken p (by rw [h.state]; trivial) hgetTokens value
  exact (h.outcome_processToken htoken value).returns hends.ne_nontermination

end FreeText

/-- No tag has begun, and the handler has been told of nothing but the document. -/
structure TextOnly (p : HtmlParser) : Prop where
  state : p.state = .free
  lookahead : p.lookahead = none
  last : ∀ t ∈ p.last, IsTextToken t
  stack : ∀ e ∈ p.stack, IsTextToken e.token
  delivered : p.delivered = [.startDocument]

variable {p : HtmlParser}

theorem TextOnly.freeText (h : TextOnly p) : FreeText [.startDocument] (joined p.stack) p :=
  ⟨h.state, h.lookahead, h.stack, rfl, h.delivered⟩

theorem TextOnly.processToken (h : TextOnly p) {token : Token} (htoken : IsTextToken token)
    (value : EntityValue) : Outcome (· = .nontermination) TextOnly
      (htmlGrammar.processToken p (some token) value) :=
  (h.freeText.outcome_processToken htoken value).mono fun p' ⟨h', hlast⟩ ↦
    ⟨h'.state, h'.lookahead, by rw [hlast]; exact h.last, h'.stack, h'.delivered⟩

theorem TextOnly.flushTokens {s : Grammar.Buffered State Token Lookahead Event} (h : TextOnly s.1) :
    Outcome (· = .nontermination) (fun s' ↦ TextOnly s'.1) (htmlGrammar.flushTokens s) := by
  rw [Grammar.flushTokens]
  split
  · exact h
  · refine Outcome.bind ?_ fun p hp ↦ hp
    cases hlast : s.1.last with
    | none => exact h
    | some token => exact h.processToken (h.last token hlast) _

theorem TextOnly.flushIf (c : Prop) [Decidable c]
    {s : Grammar.Buffered State Token Lookahead Event} (h : TextOnly s.1) :
    Outcome (· = .nontermination) (fun s' ↦ TextOnly s'.1) (htmlGrammar.flushIf c s) := by
  rw [Grammar.flushIf]
  split
  · exact h.flushTokens
  · exact h

/-- In the state `free`, a byte that does not begin a tag is text. -/
theorem find_free {b : UInt8} (hb : b ≠ 0x3C) :
    ∃ token, (getTokens .free).find? (Token.matchesByte · b) = some token ∧ IsTextToken token := by
  have hlt : Token.matchesByte .lt b = false := by
    simpa [Token.matchesByte, Token.value, Token.text?] using hb
  rw [getTokens, List.find?_cons_of_neg (by simp [hlt])]
  cases hfind : [Token.amp, .semi, .text].find? (Token.matchesByte · b) with
  | none =>
    have htext := List.find?_eq_none.1 hfind .text (by simp)
    exact absurd rfl htext
  | some token =>
    refine ⟨token, rfl, ?_⟩
    simpa [IsTextToken] using List.mem_of_find?_eq_some hfind

theorem TextOnly.processByte {s : Grammar.Buffered State Token Lookahead Event} (h : TextOnly s.1)
    {b : UInt8} (hb : b ≠ 0x3C) :
    Outcome (· = .nontermination) (fun s' ↦ TextOnly s'.1) (htmlGrammar.processByte s b) := by
  obtain ⟨token, hfind, htoken⟩ := find_free hb
  have hlast : ∀ {p : HtmlParser}, TextOnly p → TextOnly { p with last := some token } := by
    intro p hp
    refine ⟨hp.state, hp.lookahead, ?_, hp.stack, hp.delivered⟩
    rintro _ ⟨⟩
    exact htoken
  have hfind' : (htmlGrammar.getTokens s.1.state).find? (htmlGrammar.matchesByte · b) =
      some token := by
    rw [h.state]
    exact hfind
  rw [Grammar.processByte, hfind']
  dsimp only
  split
  · exact (h.flushIf _).bind fun s₁ hs₁ ↦ (TextOnly.flushIf _ hs₁).bind fun s₂ hs₂ ↦ hlast hs₂
  · exact h.flushTokens.bind fun s₁ hs₁ ↦ (hs₁.processToken htoken _).bind fun p hp ↦ hlast hp

/-- A document without tags is parsed, and nothing of it is delivered. -/
theorem parse_of_text {doc : List Char} (hdoc : '<' ∉ doc) :
    ∃ p, htmlGrammar.parse HtmlParser.new doc = .ok p ∧ deliveredText p.delivered = [] := by
  have hbegin : TextOnly (htmlGrammar.begin HtmlParser.new) :=
    ⟨rfl, rfl, fun _ h ↦ (nomatch h), fun _ h ↦ (nomatch h), rfl⟩
  have hbytes : ∀ b ∈ utf8 doc, b ≠ 0x3C := by
    rintro b hb rfl
    exact hdoc ((mem_utf8_ascii (c := '<') (by decide)).1 hb)
  have hprocess : Outcome (· = .nontermination) (fun s' ↦ TextOnly s'.1)
      (htmlGrammar.process (htmlGrammar.begin HtmlParser.new, []) (utf8 doc)) :=
    Outcome.foldlM (fun b hb s hs ↦ hs.processByte (hbytes b hb)) _ hbegin
  have hparse : Outcome (· = .nontermination) (fun p : HtmlParser ↦ deliveredText p.delivered = [])
      (htmlGrammar.parse HtmlParser.new doc) := by
    refine hprocess.bind fun s hs ↦ (TextOnly.flushTokens hs).bind fun s' hs' ↦ ?_
    show deliveredText (s'.1.delivered ++ [.endDocument]) = []
    rw [hs'.delivered]
    rfl
  exact hparse.returns (terminating.parse _ doc)

/-- Tokenization is lossless for the documents with a tag, and for the empty one. -/
theorem losslessTokenization_iff (doc : List Char) :
    LosslessTokenization doc ↔ '<' ∈ doc ∨ doc = [] := by
  constructor
  · intro h
    by_contra hdoc
    rw [not_or] at hdoc
    obtain ⟨p, hp, htext⟩ := h.text hdoc.1
    obtain ⟨p', hp', htext'⟩ := parse_of_text hdoc.1
    rw [hp] at hp'
    obtain rfl := Except.ok.inj hp'
    exact hdoc.2 (htext.symm.trans htext')
  · intro hdoc
    refine ⟨terminating.parse _ doc, fun p reads _ h ↦ htmlGrammar.parseStream_eq_parse p h,
      fun htext ↦ ?_⟩
    obtain rfl := hdoc.resolve_left htext
    exact parse_of_text htext

/-- A document of one letter. -/
theorem letter_not_losslessTokenization : ¬LosslessTokenization ['a'] := by
  intro h
  obtain ⟨p, hp, htext⟩ := h.text (by decide)
  have hparse : (htmlGrammar.parse HtmlParser.new ['a']).map Parser.delivered =
      .ok [.startDocument, .endDocument] := by
    decide +kernel
  rw [hp] at hparse
  rw [Except.ok.inj hparse] at htext
  exact absurd htext (by decide)

end JPype.Html
