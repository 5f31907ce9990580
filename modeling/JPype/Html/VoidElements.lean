import JPype.Html.Attributes
import JPype.Html.ClosingTags

/-!
# Void elements

A void element may be written `<br>`, and also `<br/>`. Of the first, the grammar tells that an
element starts; of the second, that it starts and ends. But the handler does not open a void
element, so that there is none to close, and the end throws: a document with a slash in the tag of a
void element has no tree (`parseTree_of_slash`).

What a parser has told is never taken back (`Grammar.Tells.process`).
-/

namespace JPype.Html

open HtmlGrammar Unicode

/-! ### What has been told stays -/

/-- However a call ends, the parser after it has told `es` first. -/
def Told {π α ε : Type} (es : List ε) (delivered : π → List ε) (parser : α → π) : Attempt π α → Prop
  | .ok a => es <+: delivered (parser a)
  | .error (_, p) => es <+: delivered p

theorem Told.bind {π α β ε : Type} {es : List ε} {delivered : π → List ε} {parser : α → π}
    {parser' : β → π} {x : Attempt π α} {f : α → Attempt π β} (hx : Told es delivered parser x)
    (hf : ∀ a, es <+: delivered (parser a) → Told es delivered parser' (f a)) :
    Told es delivered parser' (x >>= f) := by
  cases x with
  | error e => exact hx
  | ok a => exact hf a hx

namespace Grammar

variable {σ τ ρ ε : Type}

/-- A rule tells more at most. -/
def TellsMore (rule : Rule σ τ ρ ε) : Prop :=
  ∀ p entity, Told p.delivered Parser.delivered Prod.snd (rule p entity)

/-- All the rules of a grammar tell more at most. -/
structure Tells (g : Grammar σ τ ρ ε) : Prop where
  rule : ∀ state, ∀ rule ∈ g.getRules state, TellsMore rule
  lookahead : ∀ l, TellsMore (g.lookahead l)

variable {g : Grammar σ τ ρ ε} {es : List ε}

theorem TellsMore.told {rule : Rule σ τ ρ ε} (h : TellsMore rule) {p : Parser σ τ ρ ε}
    (hp : es <+: p.delivered) (entity : Entity τ) :
    Told es Parser.delivered Prod.snd (rule p entity) := by
  have hrule := h p entity
  revert hrule
  cases rule p entity with
  | error e => exact hp.trans
  | ok r => exact hp.trans

theorem told_applyRules {rules : List (Rule σ τ ρ ε)} (h : ∀ rule ∈ rules, TellsMore rule) :
    ∀ {p : Parser σ τ ρ ε}, es <+: p.delivered →
      Told es Parser.delivered Prod.snd (applyRules rules p) := by
  induction rules with
  | nil => exact fun hp ↦ hp
  | cons rule rules ih =>
    intro p hp
    obtain ⟨hrule, hrules⟩ := List.forall_mem_cons.1 h
    rw [applyRules]
    split
    · exact hp
    · refine (hrule.told hp _).bind fun r hr ↦ ?_
      obtain ⟨applied, p'⟩ := r
      cases applied with
      | true => exact hr
      | false => exact ih hrules hr

theorem Tells.settle (h : g.Tells) (n : ℕ) : ∀ {p : Parser σ τ ρ ε}, es <+: p.delivered →
    Told es Parser.delivered id (g.settle n p) := by
  induction n with
  | zero => exact fun hp ↦ hp
  | succ n ih =>
    intro p hp
    rw [Grammar.settle]
    split
    · exact hp
    · refine (told_applyRules (h.rule p.state) hp).bind fun r hr ↦ ?_
      obtain ⟨applied, p'⟩ := r
      cases applied with
      | true => exact ih hr
      | false => exact hr

theorem Tells.processToken (h : g.Tells) {p : Parser σ τ ρ ε} (hp : es <+: p.delivered)
    (token : Option τ) (value : EntityValue) :
    Told es Parser.delivered id (g.processToken p token value) := by
  cases token with
  | none => exact hp
  | some token =>
    rw [Grammar.processToken]
    split
    · exact h.settle _ hp
    · next rule1 _ =>
      have hp' : es <+: ({ p with stack := ⟨token, value⟩ :: p.stack, lookahead := none } :
        Parser σ τ ρ ε).delivered := hp
      refine ((h.lookahead rule1).told hp' _).bind fun r hr ↦ ?_
      obtain ⟨applied, p'⟩ := r
      cases applied with
      | true => exact hr
      | false => exact h.settle _ hr

theorem Tells.flushTokens (h : g.Tells) {s : Buffered σ τ ρ ε} (hs : es <+: s.1.delivered) :
    Told es Parser.delivered Prod.fst (g.flushTokens s) := by
  rw [Grammar.flushTokens]
  split
  · exact hs
  · exact (h.processToken hs _ _).bind fun p hp ↦ hp

theorem Tells.flushIf (h : g.Tells) (c : Prop) [Decidable c] {s : Buffered σ τ ρ ε}
    (hs : es <+: s.1.delivered) : Told es Parser.delivered Prod.fst (g.flushIf c s) := by
  rw [Grammar.flushIf]
  split
  · exact h.flushTokens hs
  · exact hs

theorem Tells.processByte [DecidableEq τ] (h : g.Tells) {s : Buffered σ τ ρ ε}
    (hs : es <+: s.1.delivered) (b : UInt8) :
    Told es Parser.delivered Prod.fst (g.processByte s b) := by
  rw [Grammar.processByte]
  split
  · exact hs
  · split
    · exact (h.flushIf _ hs).bind fun s₁ h₁ ↦ (h.flushIf _ h₁).bind fun s₂ h₂ ↦ h₂
    · exact (h.flushTokens hs).bind fun s₁ h₁ ↦ (h.processToken h₁ _ _).bind fun p hp ↦ hp

theorem Tells.process [DecidableEq τ] (h : g.Tells) (bytes : List UInt8) :
    ∀ {s : Buffered σ τ ρ ε}, es <+: s.1.delivered →
      Told es Parser.delivered Prod.fst (g.process s bytes) := by
  induction bytes with
  | nil => exact fun hs ↦ hs
  | cons b bytes ih =>
    intro s hs
    rw [Grammar.process, List.foldlM_cons]
    exact (h.processByte hs b).bind fun s' hs' ↦ ih hs'

end Grammar

/-! ### The grammar of documents -/

namespace HtmlGrammar

variable {p : HtmlParser} {pattern : List Token}
  {execute : HtmlParser → Attempt HtmlParser HtmlParser}

theorem tellsMore_matchRule (h : ∀ p, Told p.delivered Parser.delivered id (execute p)) :
    Grammar.TellsMore (matchRule pattern execute) := by
  intro p entity
  rw [matchRule]
  split
  · have hp := h p
    revert hp
    cases execute p with
    | error e => exact id
    | ok p' => exact id
  · exact List.prefix_rfl

theorem prefix_flushText (p : HtmlParser) : p.delivered <+: (flushText p).delivered := by
  rw [flushText]
  split
  · exact List.prefix_rfl
  · exact List.prefix_append _ _

/-- The content is read, and what is told then is told after what has been told. -/
theorem told_content {q : HtmlParser} {e : Entity Token}
    {f : List Char → Attempt HtmlParser HtmlParser} (hq : p.delivered <+: q.delivered)
    (hf : ∀ w, Told p.delivered Parser.delivered id (f w)) :
    Told p.delivered Parser.delivered id (content q e >>= f) := by
  rw [content]
  split
  · exact hq
  · exact hf _
  · exact hf _

theorem tellsMore_endRule (begins : Token) (event : List Char → Event) :
    Grammar.TellsMore (endRule begins event) := by
  refine tellsMore_matchRule fun p ↦ ?_
  split
  · next rest _ =>
    refine told_content List.prefix_rfl fun w ↦ ?_
    exact (prefix_flushText { p with stack := rest }).trans (List.prefix_append _ _)
  · exact List.prefix_rfl

theorem tellsMore_startElement : Grammar.TellsMore startElement := by
  refine tellsMore_matchRule fun p ↦ ?_
  split
  · next rest _ =>
    refine told_content List.prefix_rfl fun w ↦ ?_
    exact (prefix_flushText { p with stack := rest }).trans (List.prefix_append _ _)
  · exact List.prefix_rfl

theorem tellsMore_completeElement : Grammar.TellsMore completeElement := by
  refine tellsMore_matchRule fun p ↦ ?_
  split
  · refine told_content List.prefix_rfl fun w ↦ ?_
    split
    · exact (List.prefix_append p.delivered [_]).trans (List.prefix_append _ _)
    · exact (List.prefix_append p.delivered [_]).trans (List.prefix_append _ _)
  · exact List.prefix_rfl

theorem tellsMore_mergeText : Grammar.TellsMore mergeText := by
  refine tellsMore_matchRule fun p ↦ ?_
  split <;> exact List.prefix_rfl

theorem tellsMore_escaped : Grammar.TellsMore escaped := by
  refine tellsMore_matchRule fun p ↦ ?_
  split <;> exact List.prefix_rfl

theorem tellsMore_startComment : Grammar.TellsMore startComment :=
  tellsMore_matchRule fun _ ↦ List.prefix_rfl

theorem tellsMore_endCData : Grammar.TellsMore endCData := by
  refine tellsMore_matchRule fun p ↦ ?_
  split
  · exact List.prefix_rfl
  · exact List.prefix_append _ _
  · exact List.prefix_rfl

theorem tellsMore_endComment : Grammar.TellsMore endComment := by
  refine tellsMore_matchRule fun p ↦ ?_
  split
  · exact List.prefix_rfl
  · exact List.prefix_append _ _
  · exact List.prefix_rfl

theorem tellsMore_beginElement : Grammar.TellsMore beginElement := by
  intro p entity
  rw [beginElement]
  split
  · exact List.prefix_rfl
  · exact prefix_flushText p

theorem tellsMore_startQuote : Grammar.TellsMore startQuote := by
  intro p entity
  rw [startQuote]
  split <;> exact List.prefix_rfl

theorem tellsMore_endQuote (token : Token) (state : State) :
    Grammar.TellsMore (endQuote token state) := by
  intro p entity
  rw [endQuote]
  split
  · exact List.prefix_rfl
  · split <;> exact List.prefix_rfl

theorem tellsMore_cleanup : Grammar.TellsMore cleanup := by
  intro p entity
  rw [cleanup]
  split
  · exact List.prefix_rfl
  · split <;> exact List.prefix_rfl

theorem tellsMore_lookahead (l : Lookahead) : Grammar.TellsMore (lookahead l) := by
  intro p entity
  cases l with
  | cleanupNext =>
    show Told _ _ _ (cleanupNext p entity)
    rw [cleanupNext]
    split
    · split <;> exact List.prefix_rfl
    · exact List.prefix_rfl
  | beginElementNext =>
    show Told _ _ _ (beginElementNext p entity)
    rw [beginElementNext]
    split
    · split <;> exact List.prefix_rfl
    · split
      · split <;> exact List.prefix_rfl
      · exact List.prefix_rfl
  | directive =>
    show Told _ _ _ (directive p entity)
    rw [directive]
    split
    · exact List.prefix_rfl
    · split <;> exact List.prefix_rfl
  | cdata =>
    show Told _ _ _ (cdata p entity)
    rw [cdata]
    split <;> exact List.prefix_rfl
  | cdataNext =>
    show Told _ _ _ (cdataNext p entity)
    rw [cdataNext]
    split <;> exact List.prefix_rfl
  | comment =>
    show Told _ _ _ (comment p entity)
    rw [comment]
    split <;> exact List.prefix_rfl
  | commentNext =>
    show Told _ _ _ (commentNext p entity)
    rw [commentNext]
    split
    · exact List.prefix_rfl
    · split <;> exact List.prefix_rfl
  | startCommentNext =>
    show Told _ _ _ (startCommentNext p entity)
    rw [startCommentNext]
    split <;> exact List.prefix_rfl

/-- The grammar takes back nothing that it has told. -/
theorem tells_htmlGrammar : htmlGrammar.Tells where
  lookahead := tellsMore_lookahead
  rule state rule hrule := by
    revert rule
    show ∀ rule ∈ getRules state, Grammar.TellsMore rule
    cases state with
    | free => simp [getRules, tellsMore_beginElement, tellsMore_escaped, tellsMore_mergeText]
    | element =>
      simp [getRules, tellsMore_mergeText, tellsMore_startQuote, tellsMore_startElement,
        endElement, tellsMore_endRule, tellsMore_completeElement, tellsMore_escaped,
        tellsMore_cleanup]
    | directive =>
      simp [getRules, tellsMore_startQuote, endDirective, tellsMore_endRule, tellsMore_mergeText]
    | cdata => simp [getRules, tellsMore_endCData]
    | comment => simp [getRules, tellsMore_endComment, tellsMore_startComment]
    | quoted token outer => simp [getRules, tellsMore_endQuote, tellsMore_mergeText]

/-! ### The slash -/

/-- What has been read ends in a start tag, but for its bracket; the text of the tag is `w`. -/
def InStartTag (s : Grammar.Buffered State Token Lookahead Event) (w : List Char) : Prop :=
  s.1.state = .element ∧ ∃ p e lt rest, htmlGrammar.flushTokens s = .ok (p, []) ∧
    p.state = .element ∧ p.lookahead = none ∧ p.stack = e :: lt :: rest ∧ e.token = .text ∧
      lt.token = .lt ∧ content p e = .ok w

theorem applyRules_of_not_applied {p : HtmlParser} {entity : Entity Token}
    {rest : List (Entity Token)} (hp : p.stack = entity :: rest) {before after : List HtmlRule}
    (hbefore : ∀ rule ∈ before, rule p entity = .ok (false, p)) :
    Grammar.applyRules (before ++ after) p = Grammar.applyRules after p := by
  induction before with
  | nil => rfl
  | cons rule before ih =>
    obtain ⟨hrule, hbefore⟩ := List.forall_mem_cons.1 hbefore
    rw [List.cons_append, Grammar.applyRules, hp]
    dsimp only
    rw [hrule]
    exact ih hbefore

variable {e lt : Entity Token} {rest : List (Entity Token)} {w : List Char}

/-- After a slash the next token is waited for. -/
theorem processToken_slash (hstate : p.state = .element) (hlookahead : p.lookahead = none)
    (hstack : p.stack = e :: lt :: rest) :
    htmlGrammar.processToken p (some .slash) .null = .ok { p with
      stack := ⟨.slash, .null⟩ :: e :: lt :: rest
      lookahead := some .cleanupNext } := by
  let p₁ : HtmlParser := { p with stack := ⟨.slash, .null⟩ :: e :: lt :: rest }
  have hbefore : ∀ rule ∈
      [mergeText, startQuote, startElement, endElement, completeElement, escaped],
      rule p₁ ⟨.slash, .null⟩ = .ok (false, p₁) := by
    simp only [List.forall_mem_cons]
    refine ⟨matchRule_false (by simp [p₁]), ?_, matchRule_false (by simp [p₁]), ?_,
      matchRule_false (by simp [p₁]), matchRule_false (by simp [p₁]),
      fun _ h ↦ absurd h List.not_mem_nil⟩
    · rw [startQuote, if_neg (by simp)]
    · rw [endElement, endRule]
      exact matchRule_false (by simp [p₁])
  have hrules : Grammar.applyRules (htmlGrammar.getRules p₁.state) p₁ =
      .ok (false, { p₁ with lookahead := some .cleanupNext }) := by
    rw [show htmlGrammar.getRules p₁.state = [mergeText, startQuote, startElement, endElement,
      completeElement, escaped] ++ [cleanup] from congrArg getRules hstate,
      applyRules_of_not_applied rfl hbefore]
    rfl
  rw [htmlGrammar.processToken_of_none hlookahead, hstack]
  show htmlGrammar.settle (_ + 1) p₁ = _
  rw [Grammar.settle]
  show (Grammar.applyRules (htmlGrammar.getRules p₁.state) p₁ >>= _) = _
  rw [hrules]
  rfl

/-- What the rule for `/>` tells. -/
def completed (w : List Char) : List Event :=
  match w.dropWhile (· ≠ ' ') with
  | [] => [.startElement w none, .endElement w]
  | attr => [.startElement (w.takeWhile (· ≠ ' ')) (some (trim attr)),
      .endElement (w.takeWhile (· ≠ ' '))]

/-- The bracket after the slash. -/
theorem processToken_gt (hstate : p.state = .element)
    (hlookahead : p.lookahead = some .cleanupNext)
    (hstack : p.stack = ⟨.slash, .null⟩ :: e :: lt :: rest) (he : e.token = .text)
    (hlt : lt.token = .lt) (hw : ∀ p, content p e = .ok w) :
    htmlGrammar.processToken p (some .gt) .null = .ok { p with
      stack := []
      lookahead := none
      state := .free
      delivered := p.delivered ++ completed w } := by
  let p₁ : HtmlParser := { p with
    stack := ⟨.gt, .null⟩ :: ⟨.slash, .null⟩ :: e :: lt :: rest
    lookahead := none }
  have hbefore : ∀ rule ∈ [mergeText, startQuote, startElement, endElement],
      rule p₁ ⟨.gt, .null⟩ = .ok (false, p₁) := by
    simp only [List.forall_mem_cons]
    refine ⟨matchRule_false (by simp [p₁]), ?_, matchRule_false (by simp [p₁]), ?_,
      fun _ h ↦ absurd h List.not_mem_nil⟩
    · rw [startQuote, if_neg (by simp)]
    · rw [endElement, endRule]
      exact matchRule_false (by simp [p₁])
  have hcomplete : completeElement p₁ ⟨.gt, .null⟩ = .ok (true, { p₁ with
      stack := []
      state := .free
      delivered := p.delivered ++ completed w }) := by
    rw [completeElement, matchRule, if_pos (by simp [p₁, he, hlt])]
    dsimp only [p₁]
    rw [hw, completed]
    dsimp only [bind, Except.bind]
    cases w.dropWhile (· ≠ ' ') with
    | nil => simp [tell, Except.map]
    | cons c attr => simp [tell, Except.map]
  have hrules : htmlGrammar.getRules p₁.state = [mergeText, startQuote, startElement, endElement] ++
      completeElement :: [escaped, cleanup] := congrArg getRules hstate
  rw [Grammar.processToken, hlookahead, hstack]
  show htmlGrammar.settle (_ + 1) p₁ = _
  rw [htmlGrammar.settle_of_some rfl hrules hbefore hcomplete]
  rfl

theorem content_eq (h : content p e = .ok w) (p' : HtmlParser) : content p' e = .ok w := by
  rw [content] at h ⊢
  split at h
  · cases h
  · exact h
  · exact h

/-- The slash and the bracket, after the text of a start tag. -/
theorem process_slash {s : Grammar.Buffered State Token Lookahead Event} (h : InStartTag s w) :
    ∃ s', htmlGrammar.process s [0x2F, 0x3E] = .ok s' ∧
      ∃ es, s'.1.delivered = es ++ completed w := by
  obtain ⟨hs, p, e, lt, rest, hflush, hstate, hlookahead, hstack, he, hlt, hw⟩ := h
  let p₁ : HtmlParser := { p with
    stack := ⟨.slash, .null⟩ :: e :: lt :: rest
    lookahead := some .cleanupNext
    last := some .slash }
  have hslash : htmlGrammar.processByte s 0x2F = .ok (p₁, []) := by
    rw [Grammar.processByte_eq_mark hs (show _ = some Token.slash from rfl) rfl, hflush]
    show htmlGrammar.mark .slash (p, []) = _
    rw [Grammar.mark, processToken_slash hstate hlookahead hstack]
    rfl
  let p₂ : HtmlParser := { p₁ with
    stack := []
    lookahead := none
    state := .free
    last := some .gt
    delivered := p.delivered ++ completed w }
  have hgt : htmlGrammar.processByte (p₁, []) 0x3E = .ok (p₂, []) := by
    rw [Grammar.processByte_eq_mark (s := (p₁, [])) hstate (show _ = some Token.gt from rfl) rfl]
    show htmlGrammar.mark .gt (p₁, []) = _
    rw [Grammar.mark, processToken_gt (p := p₁) hstate rfl rfl he hlt (content_eq hw)]
    rfl
  refine ⟨(p₂, []), ?_, p.delivered, rfl⟩
  rw [Grammar.process, List.foldlM_cons, hslash]
  show htmlGrammar.processByte (p₁, []) 0x3E >>= _ = _
  rw [hgt]
  rfl

end HtmlGrammar

/-! ### The handler -/

namespace HtmlTreeHandler

variable {doc : Document} {loc : Locale} {h : HtmlTreeHandler loc} {name : List Char}

/-- No void element is open. -/
def NoneVoid (h : HtmlTreeHandler loc) : Prop :=
  ∀ e ∈ h.elementStack, e.nodeName ∉ voidElements

/-- There is no element to close. -/
theorem endElement_of_not_open (hnone : ∀ e ∈ h.elementStack, e.nodeName ≠ loc.normalize name) :
    ∃ e, h.endElement name = .error e := by
  by_cases hne : h.elementStack = []
  · rw [endElement, endWithin]
    dsimp only
    rw [if_pos hne]
    exact ⟨_, rfl⟩
  obtain ⟨n, hn⟩ := exists_endElement_eq name hne
  cases hdrop : h.elementStack.dropWhile (Skipped (loc.normalize name)) with
  | nil => exact ⟨_, hn.trans (endWithin_of_nil hne hdrop)⟩
  | cons last below =>
    have hsuffix : last :: below <:+ h.elementStack := hdrop ▸ List.dropWhile_suffix _
    obtain ⟨hlast, hbelow⟩ := List.forall_mem_cons.1 fun x hx ↦ hnone x (hsuffix.subset hx)
    rw [hn, endWithin_of_mismatch hdrop hlast, recover]
    dsimp only
    rw [List.tail_cons, search_eq_none hbelow]
    exact ⟨_, rfl⟩

theorem ends_appendChild (node : Node loc) (h : HtmlTreeHandler loc) :
    Ends (fun h' ↦ h'.elementStack = h.elementStack) (h.appendChild node) := by
  rw [appendChild]
  split
  · exact rfl
  · exact ParseError.noConfusion

theorem not_mem_optionalClose (name : List Char) : ':' :: name ∉ optionalClose := by
  have hhead : ∀ close ∈ optionalClose, close.head? ≠ some ':' := by
    decide
  exact fun hmem ↦ hhead _ hmem rfl

/-- Every turn of the loop closes an element. -/
theorem ends_autoClose (name : List Char) (n : ℕ) : ∀ h : HtmlTreeHandler loc,
    h.elementStack.length < n →
      Ends (fun h' ↦ h'.elementStack <:+ h.elementStack) (autoClose name n h) := by
  induction n with
  | zero => exact fun _ hlt ↦ absurd hlt (Nat.not_lt_zero _)
  | succ n ih =>
    intro h hlt
    rw [autoClose]
    split_ifs with hclose
    · cases hstack : h.elementStack with
      | nil =>
        rw [lastNodeName, hstack] at hclose
        exact absurd hclose.2 (not_mem_optionalClose name)
      | cons e rest =>
        have hlast : h.lastNodeName = e.nodeName := by
          rw [lastNodeName, hstack]
        rw [hlast, endElement, endWithin_top hstack]
        refine (ih _ ?_).mono fun _ hsuffix ↦ hsuffix.trans (List.suffix_cons e rest)
        rw [hstack, List.length_cons] at hlt
        exact Nat.lt_of_succ_lt_succ hlt
    · exact List.suffix_rfl

theorem ends_parseAttributes (attr : Option (List Char)) (h : HtmlTreeHandler loc) :
    Ends (fun r ↦ r.2.elementStack = h.elementStack) (h.parseAttributes doc attr) := by
  cases attr with
  | none => exact rfl
  | some attr =>
    rw [parseAttributes]
    split
    · next e p hparse =>
      rintro rfl
      exact AttrGrammar.parse_ne_nontermination _ _ _ _ hparse
    · exact rfl

theorem NoneVoid.of_suffix (hvoid : h.NoneVoid) {h' : HtmlTreeHandler loc}
    (hsuffix : h'.elementStack <:+ h.elementStack) : h'.NoneVoid :=
  fun e he ↦ hvoid e (hsuffix.subset he)

/-- Of a name that is none in XML no element is created. -/
theorem startElement_of_not_isXMLName (attr : Option (List Char))
    (hname : doc.isXMLName (loc.normalize name) = false) :
    ∃ e, h.startElement doc name attr = .error e := by
  rw [startElement]
  cases h.autoClose (loc.normalize name) (h.elementStack.length + 1) with
  | error e => exact ⟨e, rfl⟩
  | ok h' =>
    dsimp only [bind, Except.bind]
    rw [if_pos (by simp [hname])]
    exact ⟨_, rfl⟩

theorem NoneVoid.startElement (doc : Document) (hvoid : h.NoneVoid) (name : List Char)
    (attr : Option (List Char)) :
    Ends NoneVoid (h.startElement doc name attr) := by
  rw [HtmlTreeHandler.startElement]
  refine (ends_autoClose _ _ h (Nat.lt_succ_self _)).bind fun h₁ hsuffix ↦ ?_
  split
  · exact ParseError.noConfusion
  · refine (ends_parseAttributes attr h₁).bind fun r hr ↦ ?_
    obtain ⟨attrs, h₂⟩ := r
    refine (ends_appendChild _ h₂).bind fun h₃ h₃stack ↦ ?_
    have h₃void : h₃.NoneVoid := hvoid.of_suffix (by rw [h₃stack, hr]; exact hsuffix)
    split
    · exact h₃void
    · next hname => exact List.forall_mem_cons.2 ⟨hname, h₃void⟩

/-- Whatever the handler is told, it does not open a void element; and it comes to an end. -/
theorem NoneVoid.handle (doc : Document) (hvoid : h.NoneVoid) (event : Event) :
    Ends NoneVoid (h.handle doc event) := by
  have happend : ∀ node, Ends NoneVoid (h.appendChild node) := fun node ↦
    (ends_appendChild node h).mono fun h' hstack ↦ hvoid.of_suffix (hstack ▸ List.suffix_rfl)
  cases event with
  | startDocument => exact hvoid
  | endDocument => exact hvoid
  | startElement name attr => exact hvoid.startElement doc name attr
  | endElement name => exact (ends_endElement name h).mono fun _ ↦ hvoid.of_suffix
  | text text =>
    show Ends NoneVoid (h.text text)
    rw [HtmlTreeHandler.text]
    split_ifs
    · exact hvoid
    · exact ParseError.noConfusion
    · exact hvoid
    · exact happend _
  | cdata text => exact happend _
  | comment contents =>
    show Ends NoneVoid (h.comment contents)
    rw [HtmlTreeHandler.comment]
    split
    · exact ParseError.noConfusion
    · exact happend _
  | directive text =>
    show Ends NoneVoid (h.directive doc text)
    rw [HtmlTreeHandler.directive]
    split
    · exact ParseError.noConfusion
    · dsimp only
      split
      · exact happend _
      · exact ParseError.noConfusion

theorem NoneVoid.foldlM (doc : Document) (hvoid : h.NoneVoid) (events : List Event) :
    Ends NoneVoid (events.foldlM (HtmlTreeHandler.handle doc) h) :=
  Outcome.foldlM (fun event _ _ hvoid ↦ hvoid.handle doc event) h hvoid

end HtmlTreeHandler

/-! ### The name of the element -/

section Name

variable {loc : Locale} {w : List Char}

theorem splitSpace_fst (w : List Char) : (splitSpace w).1 = w.takeWhile fun c ↦ !isSpace c := by
  rw [splitSpace]
  split
  · next h =>
    have happend := List.takeWhile_append_dropWhile (p := fun c ↦ !isSpace c) (l := w)
    rw [h, List.append_nil] at happend
    exact happend.symm
  · rfl

theorem le_of_isSpace {c : Char} (hc : isSpace c) : c ≤ ' ' := by
  simp only [isSpace, Bool.or_eq_true, beq_iff_eq] at hc
  obtain ((((rfl | rfl) | rfl) | rfl) | rfl) | rfl := hc <;> decide

/-- Up to the first space, there is the name, and perhaps other white space and more. -/
theorem exists_takeWhile_eq (w : List Char) : ∃ r, w.takeWhile (· ≠ ' ') = (splitSpace w).1 ++ r ∧
    ∀ c t, r = c :: t → c ≤ ' ' := by
  rw [splitSpace_fst]
  induction w with
  | nil => exact ⟨[], rfl, fun _ _ h ↦ absurd h.symm (List.cons_ne_nil _ _)⟩
  | cons c w ih =>
    by_cases hc : isSpace c
    · have hnil : (c :: w).takeWhile (fun c ↦ !isSpace c) = [] :=
        List.takeWhile_cons_of_neg (by simp [hc])
      rw [hnil]
      refine ⟨(c :: w).takeWhile (· ≠ ' '), (List.nil_append _).symm, ?_⟩
      rintro c' t htake
      rw [List.takeWhile_cons] at htake
      split at htake
      · rw [← (List.cons.inj htake).1]
        exact le_of_isSpace hc
      · cases htake
    · have hspace : c ≠ ' ' := by
        rintro rfl
        exact hc (by decide)
      obtain ⟨r, hr, hle⟩ := ih
      rw [List.takeWhile_cons_of_pos (by simpa using hspace),
        List.takeWhile_cons_of_pos (by simp [hc]), hr]
      exact ⟨r, rfl, hle⟩

/-- What comes after white space is trimmed away, or keeps the white space. -/
theorem trim_append {a b : List Char} {c : Char} (hc : c ≤ ' ') (ha : trim a ≠ []) :
    trim (a ++ c :: b) = trim a ∨ c ∈ trim (a ++ c :: b) := by
  let white : Char → Bool := fun c ↦ c ≤ ' '
  have hstart : (a ++ c :: b).dropWhile white = a.dropWhile white ++ c :: b := by
    have hne : a.dropWhile white ≠ [] := by
      intro hnil
      refine ha ?_
      show (a.dropWhile white).rdropWhile white = []
      rw [hnil]
      rfl
    rw [List.dropWhile_append, if_neg (by simpa [List.isEmpty_iff] using hne)]
  show ((a ++ c :: b).dropWhile white).rdropWhile white = (a.dropWhile white).rdropWhile white ∨
    c ∈ ((a ++ c :: b).dropWhile white).rdropWhile white
  rw [hstart]
  clear hstart
  generalize a.dropWhile white = a
  induction b using List.reverseRecOn with
  | nil => exact .inl (List.rdropWhile_concat_pos white a c (by simpa [white] using hc))
  | append_singleton b d ih =>
    rw [← List.cons_append, ← List.append_assoc]
    by_cases hd : white d
    · rw [List.rdropWhile_concat_pos white _ d hd]
      exact ih
    · rw [List.rdropWhile_concat_neg white _ d hd]
      exact .inr (by simp)

/-- The name that is read of `/>` is that of the start tag, or none in XML. -/
theorem normalize_takeWhile (doc : Document) (hname : loc.normalize (splitSpace w).1 ≠ []) :
    loc.normalize (w.takeWhile (· ≠ ' ')) = loc.normalize (splitSpace w).1 ∨
      doc.isXMLName (loc.normalize (w.takeWhile (· ≠ ' '))) = false := by
  obtain ⟨r, hr, hle⟩ := exists_takeWhile_eq w
  rw [hr]
  cases r with
  | nil =>
    rw [List.append_nil]
    exact .inl rfl
  | cons c t =>
    have hc := hle c t rfl
    rw [Locale.normalize, loc.toLowerCase_append _ _ _ hc]
    refine (trim_append hc hname).imp_right fun hmem ↦ ?_
    rw [Bool.eq_false_iff]
    intro hxml
    refine doc.not_isMark _ hxml c hmem (.inl ?_)
    exact UInt32.le_iff_toNat_le.1 hc

end Name

theorem completed_eq (w : List Char) : ∃ attr, completed w =
    [.startElement (w.takeWhile (· ≠ ' ')) attr, .endElement (w.takeWhile (· ≠ ' '))] := by
  rw [completed]
  split
  · next h =>
    have happend := List.takeWhile_append_dropWhile (p := (· ≠ ' ')) (l := w)
    rw [h, List.append_nil] at happend
    rw [happend]
    exact ⟨none, rfl⟩
  · exact ⟨_, rfl⟩

/-! ### Tags of void elements -/

section Slash

variable {doc : Document} {loc : Locale} {w : List Char}

/-- Of a void element, the handler cannot be told that it is complete. -/
theorem foldlM_completed (doc : Document) {h : HtmlTreeHandler loc} (hvoid : h.NoneVoid)
    (hw : loc.normalize (splitSpace w).1 ∈ voidElements) :
    ∃ e, (completed w).foldlM (HtmlTreeHandler.handle doc) h = .error e := by
  have hne : loc.normalize (splitSpace w).1 ≠ [] := by
    intro hnil
    rw [hnil] at hw
    exact absurd hw (by decide)
  obtain ⟨attr, hcompleted⟩ := completed_eq w
  rw [hcompleted, List.foldlM_cons]
  have hstart := hvoid.startElement doc (w.takeWhile (· ≠ ' ')) attr
  show ∃ e, (h.startElement doc _ attr >>= _) = _
  obtain hname | hname := normalize_takeWhile doc hne
  · cases hresult : h.startElement doc (w.takeWhile (· ≠ ' ')) attr with
    | error e => exact ⟨e, rfl⟩
    | ok h' =>
      rw [hresult] at hstart
      have hnone : ∀ e ∈ h'.elementStack, e.nodeName ≠ loc.normalize (w.takeWhile (· ≠ ' ')) := by
        rintro e he heq
        exact hstart e he (by rw [heq, hname]; exact hw)
      obtain ⟨e, hend⟩ := HtmlTreeHandler.endElement_of_not_open hnone
      refine ⟨e, ?_⟩
      show (h'.endElement _ >>= _) = _
      rw [hend]
      rfl
  · obtain ⟨e, he⟩ := HtmlTreeHandler.startElement_of_not_isXMLName attr hname
    exact ⟨e, by rw [he]; rfl⟩

/-- A document in which a void element is written with a slash has no tree. -/
theorem parseTree_of_slash (doc : Document) {text : List Char} (rest : List Char)
    {s : Grammar.Buffered State Token Lookahead Event}
    (hread : htmlGrammar.process (htmlGrammar.begin HtmlParser.new, []) (utf8 text) = .ok s)
    (htag : InStartTag s w) (hvoid : loc.normalize (splitSpace w).1 ∈ voidElements) :
    ∃ e, parseTree doc loc (text ++ '/' :: '>' :: rest) = .error e := by
  obtain ⟨s', hslash, es, hes⟩ := process_slash htag
  have hprocess : htmlGrammar.process (htmlGrammar.begin HtmlParser.new, [])
      (utf8 (text ++ '/' :: '>' :: rest)) = htmlGrammar.process s' (utf8 rest) := by
    rw [utf8_append, htmlGrammar.process_append, hread]
    show htmlGrammar.process s ([0x2F, 0x3E] ++ utf8 rest) = _
    rw [htmlGrammar.process_append, hslash]
    rfl
  -- The handler fails at the void element, unless it has failed before,
  have hfold : ∀ events : List Event, es ++ completed w <+: events →
      ∃ e, events.foldlM (HtmlTreeHandler.handle doc) (.new : HtmlTreeHandler loc) = .error e := by
    rintro _ ⟨more, rfl⟩
    have hes := (show (HtmlTreeHandler.new : HtmlTreeHandler loc).NoneVoid from
      fun e he ↦ absurd he List.not_mem_nil).foldlM doc es
    rw [List.append_assoc, List.foldlM_append]
    revert hes
    cases es.foldlM (HtmlTreeHandler.handle doc) (.new : HtmlTreeHandler loc) with
    | error e => exact fun _ ↦ ⟨e, rfl⟩
    | ok h =>
      intro hnone
      obtain ⟨e, he⟩ := foldlM_completed doc hnone hvoid
      refine ⟨e, ?_⟩
      show List.foldlM _ h (completed w ++ more) = _
      rw [List.foldlM_append, he]
      rfl
  -- and it is told of the element, whatever comes behind.
  have htold : Told (es ++ completed w) Parser.delivered id
      (htmlGrammar.parse HtmlParser.new (text ++ '/' :: '>' :: rest)) := by
    rw [Grammar.parse, hprocess]
    refine (tells_htmlGrammar.process (utf8 rest) (hes ▸ List.prefix_rfl)).bind fun s₁ hs₁ ↦ ?_
    refine (tells_htmlGrammar.flushTokens hs₁).bind fun s₂ hs₂ ↦ ?_
    exact hs₂.trans (List.prefix_append _ _)
  rw [parseTree]
  revert htold
  cases htmlGrammar.parse HtmlParser.new (text ++ '/' :: '>' :: rest) with
  | error ep =>
    intro htold
    obtain ⟨e, he⟩ := hfold _ htold
    refine ⟨e.1, ?_⟩
    dsimp only
    rw [he]
    rfl
  | ok p =>
    intro htold
    obtain ⟨e, he⟩ := hfold p.delivered htold
    refine ⟨e.1, ?_⟩
    dsimp only
    rw [he]
    rfl

/-- A document that has a tree has the same one if the tag that `text` ends in is written with a
slash. -/
def SlashMakesNoDifference (doc : Document) (loc : Locale) (text rest : List Char) : Prop :=
  ∃ tree, parseTree doc loc (text ++ '>' :: rest) = .ok tree ∧
    parseTree doc loc (text ++ '/' :: '>' :: rest) = .ok tree

/-- In the tag of a void element, a slash always makes a difference. -/
theorem not_slashMakesNoDifference {text rest : List Char}
    {s : Grammar.Buffered State Token Lookahead Event}
    (hread : htmlGrammar.process (htmlGrammar.begin HtmlParser.new, []) (utf8 text) = .ok s)
    (htag : InStartTag s w) (hvoid : loc.normalize (splitSpace w).1 ∈ voidElements) :
    ¬ SlashMakesNoDifference doc loc text rest := by
  rintro ⟨tree, -, hslash⟩
  obtain ⟨e, he⟩ := parseTree_of_slash doc rest hread htag hvoid
  rw [he] at hslash
  cases hslash

/-- `<p>a<br` -/
def brokenLine : List Char := ['<', 'p', '>', 'a', '<', 'b', 'r']

/-- `b</p>` -/
def lineEnd : List Char := ['b', '<', '/', 'p', '>']

/-- The tag `<br` has been read. -/
def readBr : Grammar.Buffered State Token Lookahead Event :=
  (⟨.element, some .text, some .beginElementNext, [⟨.lt, .null⟩],
    [.startDocument, .text [], .startElement ['p'] none, .text ['a']]⟩, [0x62, 0x72])

/-- `<p>a<br>b</p>` has a tree, and `<p>a<br/>b</p>` has none. -/
theorem not_slashMakesNoDifference_br :
    (parseTree asciiDocument asciiLocale (brokenLine ++ '>' :: lineEnd)).isOk = true ∧
      ¬ SlashMakesNoDifference asciiDocument asciiLocale brokenLine lineEnd := by
  refine ⟨by decide +kernel, not_slashMakesNoDifference (s := readBr) (w := ['b', 'r']) ?_ ?_ ?_⟩
  · decide +kernel
  · exact ⟨rfl, _, _, _, _, rfl, rfl, rfl, rfl, rfl, rfl, rfl⟩
  · decide +kernel

/-- The document with the slash throws. -/
theorem parseTree_br_ne :
    parseTree asciiDocument asciiLocale (brokenLine ++ '>' :: lineEnd) ≠
      parseTree asciiDocument asciiLocale (brokenLine ++ '/' :: '>' :: lineEnd) := by
  have hopen :
      (parseTree asciiDocument asciiLocale (brokenLine ++ '>' :: lineEnd)).isOk = true := by
    decide +kernel
  have hslash : (parseTree asciiDocument asciiLocale
      (brokenLine ++ '/' :: '>' :: lineEnd)).isOk = false := by
    decide +kernel
  intro heq
  rw [heq, hslash] at hopen
  cases hopen

end Slash

end JPype.Html
