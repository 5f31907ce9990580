import JPype.Html.HtmlGrammar

/-!
# What has been told

The rules of a grammar add to what has been told, and do not look at it. So a part of a document is
read in the same way, whatever has been told before it (`Grammar.Frames.process_of_told`).
-/

namespace JPype.Html

/-- The parser, if `es` has been told before. -/
def Parser.after {σ τ ρ ε : Type} (es : List ε) (p : Parser σ τ ρ ε) : Parser σ τ ρ ε :=
  { p with delivered := es ++ p.delivered }

section After

variable {σ τ ρ ε : Type} (es : List ε) (p : Parser σ τ ρ ε)

theorem Parser.state_after : (p.after es).state = p.state := rfl

theorem Parser.last_after : (p.after es).last = p.last := rfl

theorem Parser.lookahead_after : (p.after es).lookahead = p.lookahead := rfl

theorem Parser.stack_after : (p.after es).stack = p.stack := rfl

theorem Parser.after_with_stack (stack : List (Entity τ)) :
    { p.after es with stack := stack } = ({ p with stack := stack } : Parser σ τ ρ ε).after es :=
  rfl

end After

/-- What comes of a call, if `es` has been told before: `move` says it of what is returned. -/
def Attempt.after {σ τ ρ ε α : Type} (es : List ε) (move : α → α) :
    Attempt (Parser σ τ ρ ε) α → Attempt (Parser σ τ ρ ε) α
  | .error (e, p) => .error (e, p.after es)
  | .ok a => .ok (move a)

/-- If each step goes on alike after what has been told, so does the sequence. -/
theorem Attempt.after_bind {σ τ ρ ε α β : Type} {es : List ε} {move : α → α} {move' : β → β}
    {x : Attempt (Parser σ τ ρ ε) α} {f f' : α → Attempt (Parser σ τ ρ ε) β}
    (h : ∀ a, f' (move a) = Attempt.after es move' (f a)) :
    Attempt.after es move x >>= f' = Attempt.after es move' (x >>= f) := by
  cases x with
  | error e => rfl
  | ok a => exact h a

namespace Grammar

variable {σ τ ρ ε : Type}

/-- A rule does not look at what has been told. -/
def Framed (rule : Rule σ τ ρ ε) : Prop :=
  ∀ es p entity, rule (p.after es) entity =
    Attempt.after es (Prod.map id (Parser.after es)) (rule p entity)

/-- No rule of a grammar looks at what has been told. -/
structure Frames (g : Grammar σ τ ρ ε) : Prop where
  rule : ∀ state, ∀ rule ∈ g.getRules state, Framed rule
  lookahead : ∀ l, Framed (g.lookahead l)

variable {g : Grammar σ τ ρ ε} (es : List ε)

/-- The rules of a state are tried alike, and the same one applies. -/
theorem applyRules_after {rules : List (Rule σ τ ρ ε)} (h : ∀ rule ∈ rules, Framed rule) :
    ∀ p : Parser σ τ ρ ε, applyRules rules (p.after es) =
      Attempt.after es (Prod.map id (Parser.after es)) (applyRules rules p) := by
  induction rules with
  | nil => exact fun p ↦ rfl
  | cons rule rules ih =>
    intro p
    obtain ⟨hrule, hrules⟩ := List.forall_mem_cons.1 h
    rw [applyRules, applyRules, Parser.stack_after]
    cases p.stack with
    | nil => rfl
    | cons entity rest =>
      dsimp only
      rw [hrule]
      refine Attempt.after_bind fun r ↦ ?_
      obtain ⟨applied, p'⟩ := r
      cases applied with
      | true => rfl
      | false => exact ih hrules p'

namespace Frames

variable (h : g.Frames)

include h

/-- What the rules leave of the stack is the same. -/
theorem settle (n : ℕ) : ∀ p : Parser σ τ ρ ε,
    g.settle n (p.after es) = Attempt.after es (Parser.after es) (g.settle n p) := by
  induction n with
  | zero => exact fun p ↦ rfl
  | succ n ih =>
    intro p
    rw [Grammar.settle, Grammar.settle, Parser.stack_after]
    cases p.stack with
    | nil => rfl
    | cons entity rest =>
      dsimp only
      rw [Parser.state_after, applyRules_after es (h.rule p.state)]
      refine Attempt.after_bind fun r ↦ ?_
      obtain ⟨applied, p'⟩ := r
      cases applied with
      | true => exact ih p'
      | false => rfl

/-- A token is taken alike: it may change the state, and rules may tell something. -/
theorem processToken (p : Parser σ τ ρ ε) (token : Option τ) (value : EntityValue) :
    g.processToken (p.after es) token value =
      Attempt.after es (Parser.after es) (g.processToken p token value) := by
  cases token with
  | none => rfl
  | some token =>
    rw [Grammar.processToken, Grammar.processToken, Parser.lookahead_after]
    cases p.lookahead with
    | none => exact h.settle es _ { p with stack := ⟨token, value⟩ :: p.stack, lookahead := none }
    | some rule1 =>
      dsimp only
      refine Eq.trans (congrArg (· >>= _) (h.lookahead rule1 es
        { p with stack := ⟨token, value⟩ :: p.stack, lookahead := none } _)) ?_
      refine Attempt.after_bind fun r ↦ ?_
      obtain ⟨applied, p'⟩ := r
      cases applied with
      | true => rfl
      | false => exact h.settle es _ p'

/-- The buffered text becomes the same token. -/
theorem flushTokens (s : Buffered σ τ ρ ε) :
    g.flushTokens (s.1.after es, s.2) =
      Attempt.after es (Prod.map (Parser.after es) id) (g.flushTokens s) := by
  obtain ⟨p, buffer⟩ := s
  cases buffer with
  | nil => rfl
  | cons b buffer =>
    rw [Grammar.flushTokens, Grammar.flushTokens]
    dsimp only
    rw [Parser.last_after, h.processToken es]
    exact Attempt.after_bind fun p' ↦ rfl

theorem flushIf (c : Prop) [Decidable c] (s : Buffered σ τ ρ ε) :
    g.flushIf c (s.1.after es, s.2) =
      Attempt.after es (Prod.map (Parser.after es) id) (g.flushIf c s) := by
  rw [Grammar.flushIf, Grammar.flushIf]
  split
  · exact h.flushTokens es s
  · rfl

variable [DecidableEq τ]

/-- A byte is a token, or text that is buffered. -/
theorem processByte (s : Buffered σ τ ρ ε) (b : UInt8) :
    g.processByte (s.1.after es, s.2) b =
      Attempt.after es (Prod.map (Parser.after es) id) (g.processByte s b) := by
  rw [Grammar.processByte, Grammar.processByte,
    show (s.1.after es, s.2).1.state = s.1.state from rfl]
  cases (g.getTokens s.1.state).find? (g.matchesByte · b) with
  | none => rfl
  | some token =>
    dsimp only
    split
    -- a text is flushed where the last token was another, and where its block is full
    · refine Eq.trans (congrArg (· >>= _) (h.flushIf es _ s)) (Attempt.after_bind fun s₁ ↦ ?_)
      refine Eq.trans (congrArg (· >>= _) (h.flushIf es _ s₁)) (Attempt.after_bind fun s₂ ↦ ?_)
      rfl
    · rw [h.flushTokens es]
      refine Attempt.after_bind fun s₁ ↦ ?_
      refine Eq.trans (congrArg (· >>= _) (h.processToken es s₁.1 _ _))
        (Attempt.after_bind fun p ↦ ?_)
      rfl

/-- A part of a document is read alike, byte for byte. -/
theorem process (bytes : List UInt8) : ∀ s : Buffered σ τ ρ ε,
    g.process (s.1.after es, s.2) bytes =
      Attempt.after es (Prod.map (Parser.after es) id) (g.process s bytes) := by
  induction bytes with
  | nil => exact fun s ↦ rfl
  | cons b bytes ih =>
    intro s
    rw [Grammar.process, Grammar.process, List.foldlM_cons, List.foldlM_cons, h.processByte es]
    exact Attempt.after_bind fun s' ↦ ih s'

/-- Bytes that are read are read in the same way if something else has been told before. -/
theorem process_of_told {p p' : Parser σ τ ρ ε} {buffer buffer' bytes : List UInt8} {more : List ε}
    (hprocess : g.process (p, buffer) bytes = .ok (p', buffer'))
    (hmore : p'.delivered = p.delivered ++ more) (told : List ε) :
    g.process ({ p with delivered := told }, buffer) bytes =
      .ok ({ p' with delivered := told ++ more }, buffer') := by
  have hbefore : ∀ es : List ε, ({ p with delivered := [] } : Parser σ τ ρ ε).after es =
      { p with delivered := es } := by
    intro es
    rw [Parser.after, List.append_nil]
  have hp := h.process p.delivered bytes ({ p with delivered := [] }, buffer)
  have htold := h.process told bytes ({ p with delivered := [] }, buffer)
  rw [hbefore] at hp htold
  replace hp := hp.symm.trans hprocess
  rw [htold]
  cases hresult : g.process ({ p with delivered := [] }, buffer) bytes with
  | error e =>
    rw [hresult] at hp
    cases hp
  | ok s =>
    rw [hresult] at hp
    obtain ⟨rfl, rfl⟩ := Prod.mk.inj (Except.ok.inj hp)
    have hs : s.1.delivered = more := List.append_cancel_left hmore
    rw [Attempt.after, Prod.map, Parser.after, hs]
    rfl

end Frames

end Grammar

/-! ### The grammar of documents -/

namespace HtmlGrammar

open Grammar

variable {es : List Event} {pattern : List Token}
  {execute : HtmlParser → Attempt HtmlParser HtmlParser}

/-- A rule that matches a pattern only looks at the stack. -/
theorem framed_matchRule
    (h : ∀ es p, execute (p.after es) = Attempt.after es (Parser.after es) (execute p)) :
    Framed (matchRule pattern execute) := by
  intro es p entity
  rw [matchRule, matchRule, Parser.stack_after]
  split
  · rw [h]
    cases execute p <;> rfl
  · rfl

theorem tell_after (es : List Event) (p : HtmlParser) (event : Event) :
    tell (p.after es) event = (tell p event).after es := by
  rw [tell, tell, Parser.after, Parser.after, List.append_assoc]

/-- Text is told when something else comes, and behind what has been told. -/
theorem flushText_after (es : List Event) (p : HtmlParser) :
    flushText (p.after es) = (flushText p).after es := by
  rw [flushText, flushText, Parser.stack_after]
  cases p.stack with
  | nil => rfl
  | cons last rest =>
    dsimp only
    rw [tell_after]
    rfl

/-- The text of an entity does not depend on what has been told. -/
theorem content_after (es : List Event) (p : HtmlParser) (e : Entity Token) :
    content (p.after es) e = Attempt.after es id (content p e) := by
  rw [content, content]
  split <;> rfl

theorem framed_mergeText : Framed mergeText := by
  refine framed_matchRule fun es p ↦ ?_
  rw [Parser.stack_after]
  split <;> rfl

theorem framed_escaped : Framed escaped := by
  refine framed_matchRule fun es p ↦ ?_
  rw [Parser.stack_after]
  split <;> rfl

theorem framed_startComment : Framed startComment :=
  framed_matchRule fun _ _ ↦ rfl

/-- Rules that end with `>` tell one event. -/
theorem framed_endRule (begins : Token) (event : List Char → Event) :
    Framed (endRule begins event) := by
  refine framed_matchRule fun es p ↦ ?_
  rw [Parser.stack_after]
  split
  · next e1 _ rest _ =>
    refine Eq.trans (congrArg (· >>= _) (content_after es { p with stack := rest } e1))
      (Attempt.after_bind fun w ↦ ?_)
    have hflush := flushText_after es { p with stack := rest }
    rw [Parser.after_with_stack, hflush, id, tell_after]
    rfl
  · rfl

/-- The rules for elements tell the name, the end, or both. -/
theorem framed_startElement : Framed startElement := by
  refine framed_matchRule fun es p ↦ ?_
  rw [Parser.stack_after]
  split
  · next e1 _ rest _ =>
    refine Eq.trans (congrArg (· >>= _) (content_after es { p with stack := rest } e1))
      (Attempt.after_bind fun w ↦ ?_)
    have hflush := flushText_after es { p with stack := rest }
    rw [Parser.after_with_stack, hflush, id]
    dsimp only
    rw [tell_after]
    rfl
  · rfl

theorem framed_completeElement : Framed completeElement := by
  refine framed_matchRule fun es p ↦ ?_
  rw [Parser.stack_after]
  split
  · next e1 _ rest _ =>
    refine Eq.trans (congrArg (· >>= _) (content_after es { p with stack := rest } e1))
      (Attempt.after_bind fun w ↦ ?_)
    rw [Parser.after_with_stack, id]
    dsimp only
    split
    · rw [tell_after, tell_after]
      rfl
    · rw [tell_after, tell_after]
      rfl
  · rfl

theorem framed_endCData : Framed endCData := by
  refine framed_matchRule fun es p ↦ ?_
  rw [Parser.stack_after]
  split
  · rfl
  · next rest _ _ =>
    rw [Parser.after_with_stack, tell_after]
    rfl
  · rfl

theorem framed_endComment : Framed endComment := by
  refine framed_matchRule fun es p ↦ ?_
  rw [Parser.stack_after]
  split
  · rfl
  · next rest _ _ =>
    rw [Parser.after_with_stack, tell_after]
    rfl
  · rfl

theorem framed_beginElement : Framed beginElement := by
  intro es p entity
  rw [beginElement, beginElement]
  split
  · rfl
  · rw [flushText_after]
    rfl

theorem framed_startQuote : Framed startQuote := by
  intro es p entity
  rw [startQuote, startQuote]
  split <;> rfl

theorem framed_endQuote (token : Token) (state : State) : Framed (endQuote token state) := by
  intro es p entity
  rw [endQuote, endQuote, Parser.stack_after]
  split
  · rfl
  · split <;> rfl

theorem framed_cleanup : Framed cleanup := by
  intro es p entity
  rw [cleanup, cleanup, Parser.stack_after]
  split
  · rfl
  · split <;> rfl

theorem framed_lookahead (l : Lookahead) : Framed (lookahead l) := by
  intro es p entity
  cases l with
  | cleanupNext =>
    show cleanupNext _ entity = Attempt.after es _ (cleanupNext p entity)
    rw [cleanupNext, cleanupNext, Parser.stack_after]
    split
    · split <;> rfl
    · rfl
  | beginElementNext =>
    show beginElementNext _ entity = Attempt.after es _ (beginElementNext p entity)
    rw [beginElementNext, beginElementNext, Parser.stack_after]
    split
    · split <;> rfl
    · split
      · split <;> rfl
      · rfl
  | directive =>
    show directive _ entity = Attempt.after es _ (directive p entity)
    rw [directive, directive]
    split
    · rfl
    · split <;> rfl
  | cdata =>
    show cdata _ entity = Attempt.after es _ (cdata p entity)
    rw [cdata, cdata]
    split <;> rfl
  | cdataNext =>
    show cdataNext _ entity = Attempt.after es _ (cdataNext p entity)
    rw [cdataNext, cdataNext]
    split <;> rfl
  | comment =>
    show comment _ entity = Attempt.after es _ (comment p entity)
    rw [comment, comment]
    split <;> rfl
  | commentNext =>
    show commentNext _ entity = Attempt.after es _ (commentNext p entity)
    rw [commentNext, commentNext]
    split
    · rfl
    · split <;> rfl
  | startCommentNext =>
    show startCommentNext _ entity = Attempt.after es _ (startCommentNext p entity)
    rw [startCommentNext, startCommentNext]
    split <;> rfl

/-- The grammar of documents does not look at what has been told. -/
theorem frames_htmlGrammar : htmlGrammar.Frames where
  lookahead := framed_lookahead
  rule state rule hrule := by
    revert rule
    show ∀ rule ∈ getRules state, Framed rule
    cases state with
    | free => simp [getRules, framed_beginElement, framed_escaped, framed_mergeText]
    | element =>
      simp [getRules, framed_mergeText, framed_startQuote, framed_startElement, endElement,
        framed_endRule, framed_completeElement, framed_escaped, framed_cleanup]
    | directive =>
      simp [getRules, framed_startQuote, endDirective, framed_endRule, framed_mergeText]
    | cdata => simp [getRules, framed_endCData]
    | comment => simp [getRules, framed_endComment, framed_startComment]
    | quoted token outer => simp [getRules, framed_endQuote, framed_mergeText]

end HtmlGrammar

end JPype.Html
