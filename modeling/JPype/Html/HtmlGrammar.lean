import JPype.Html.Parser

/-!
# The grammar of documents

`org.jpype.html.HtmlGrammar`. A document is read in the state `free`, a tag in `element`, with the
text of the tag as one entity between the entities of its brackets; what is left of `<!` decides
whether a directive, a comment or a section of character data follows. In a quoted part of a tag
only the quote that closes it is a token.

The handler is told of the events.
-/

namespace JPype.Html

namespace HtmlGrammar

/-- `HtmlGrammar.Token` -/
inductive Token where
  | text | bang | dash | lt | gt | slash | amp | semi | lsb | rsb | close | quote | squote
  | declDirective
  deriving DecidableEq, Repr

/-- `Token.text`, null for text -/
def Token.text? : Token → Option (List Char)
  | text => none
  | bang => some ['!']
  | dash => some ['-']
  | lt => some ['<']
  | gt => some ['>']
  | slash => some ['/']
  | amp => some ['&']
  | semi => some [';']
  | lsb => some ['[']
  | rsb => some [']']
  | close => some ['<', '/']
  | quote => some ['"']
  | squote => some ['\'']
  | declDirective => some ['<', '!']

/-- `Token.value`, which is zero unless the text is a single character -/
def Token.value (t : Token) : UInt8 :=
  match t.text? with
  | some [c] => .ofNat c.toNat
  | _ => 0

/-- `Token.matches` -/
def Token.matchesByte (t : Token) (b : UInt8) : Bool :=
  t.value == 0 || b == t.value

/-- `Token.runs` -/
def Token.runs (t : Token) : Bool :=
  t == .text

/-- `Token.toString` -/
def Token.toString (t : Token) : List Char :=
  t.text?.getD ['T', 'E', 'X', 'T']

/-- `HtmlGrammar.State`, and `Quoted` with the token that ends it and the state before it. -/
inductive State where
  | free | element | directive | cdata | comment
  | quoted (token : Token) (state : State)
  deriving DecidableEq, Repr

/-- The rules that become a lookahead. -/
inductive Lookahead where
  | cleanupNext | beginElementNext | directive | cdata | cdataNext | comment | commentNext
  | startCommentNext
  deriving DecidableEq, Repr

/-- What `HtmlHandler` is told. -/
inductive Event where
  | startDocument
  | endDocument
  | startElement (name : List Char) (attr : Option (List Char))
  | endElement (name : List Char)
  | text (text : List Char)
  | cdata (text : List Char)
  | comment (contents : List Char)
  | directive (text : List Char)
  deriving DecidableEq, Repr

/-- `HtmlParser` -/
abbrev HtmlParser := Parser State Token Lookahead Event

/-- A parser that is new. Its state is set by `start`. -/
def HtmlParser.new : HtmlParser :=
  ⟨.free, none, none, [], []⟩

abbrev HtmlRule := Rule State Token Lookahead Event

/-- `Entity.toString` -/
def toString (e : Entity Token) : List Char :=
  match e.value with
  | .null => e.token.toString
  | .string s => s
  | .builder s => s

/-- `promote(e).append(s)` -/
def promoteAppend (e : Entity Token) (s : List Char) : Entity Token :=
  match e.value with
  | .builder t => ⟨e.token, .builder (t ++ s)⟩
  | _ => ⟨.text, .builder (toString e ++ s)⟩

/-- `e.value.toString()` -/
def content (p : HtmlParser) (e : Entity Token) : Attempt HtmlParser (List Char) :=
  match e.value with
  | .null => .error (.nullPointer, p)
  | .string s => .ok s
  | .builder s => .ok s

/-- The handler is told of an event. -/
def tell (p : HtmlParser) (event : Event) : HtmlParser :=
  { p with delivered := p.delivered ++ [event] }

/-- `flushText` -/
def flushText (p : HtmlParser) : HtmlParser :=
  match p.stack with
  | [] => p
  | last :: rest => { tell p (.text (rest.reverse.flatMap toString)) with stack := [last] }

/-! ### The rules -/

/-- `Cleanup` -/
def cleanup : HtmlRule := fun p entity ↦
  if entity.token = .slash then
    .ok (false, { p with lookahead := some .cleanupNext })
  else if entity.token = .gt ∧ 4 < p.stack.length then
    .error (.runtimeException "Need cleanup", p)
  else
    .ok (false, p)

/-- `Cleanup.next`; a null is appended as `null`. -/
def cleanupNext : HtmlRule := fun p entity ↦
  if entity.token ≠ .gt then
    match p.stack with
    | _ :: _ :: rest =>
      let value := match entity.value with
        | .null => ['n', 'u', 'l', 'l']
        | .string s => s
        | .builder s => s
      .ok (false, { p with stack := ⟨entity.token, .string ('/' :: value)⟩ :: rest })
    | _ => .error (.noSuchElement, p)
  else
    .ok (false, p)

/-- `Escaped` -/
def escaped : HtmlRule :=
  matchRule [.amp, .text, .semi] fun p ↦
    match p.stack with
    | e2 :: e1 :: e0 :: rest =>
      .ok { p with stack := promoteAppend e0 (toString e1 ++ toString e2) :: rest }
    | _ => .error (.noSuchElement, p)

/-- `MergeText` -/
def mergeText : HtmlRule :=
  matchRule [.text, .text] fun p ↦
    match p.stack with
    | t2 :: t1 :: rest => .ok { p with stack := promoteAppend t1 (toString t2) :: rest }
    | _ => .error (.noSuchElement, p)

/-- `BeginElement` -/
def beginElement : HtmlRule := fun p entity ↦
  if entity.token ≠ .lt then .ok (false, p)
  else .ok (true, { flushText p with state := .element, lookahead := some .beginElementNext })

/-- `BeginElement.next` -/
def beginElementNext : HtmlRule := fun p entity ↦
  if entity.token = .slash then
    match p.stack with
    | _ :: last :: rest => .ok (true, { p with stack := { last with token := .close } :: rest })
    | _ => .error (.noSuchElement, p)
  else if entity.token = .bang then
    match p.stack with
    | _ :: last :: rest =>
      .ok (true, { p with
        stack := { last with token := .declDirective } :: rest
        lookahead := some .directive
        state := .directive })
    | _ => .error (.noSuchElement, p)
  else
    .ok (false, p)

/-- `\s` of a regular expression -/
def isSpace (c : Char) : Bool :=
  c == ' ' || c == '\t' || c == '\n' || c == '\x0B' || c == '\x0C' || c == '\r'

/-- `content.split("\\s+", 2)`: what comes before the first white space, and after it. -/
def splitSpace (content : List Char) : List Char × Option (List Char) :=
  match content.dropWhile fun c ↦ !isSpace c with
  | [] => (content, none)
  | rest => (content.takeWhile fun c ↦ !isSpace c, some (rest.dropWhile isSpace))

/-- `StartElement` -/
def startElement : HtmlRule :=
  matchRule [.lt, .text, .gt] fun p ↦
    match p.stack with
    | _ :: e1 :: _ :: rest => do
      let p := { p with stack := rest }
      let content ← content p e1
      let p := flushText p
      let (name, attr) := splitSpace content
      .ok { tell p (.startElement name attr) with state := .free }
    | _ => .error (.noSuchElement, p)

/-- `String.trim` -/
def trim (s : List Char) : List Char :=
  ((s.dropWhile (· ≤ ' ')).reverse.dropWhile (· ≤ ' ')).reverse

/-- `CompleteElement` -/
def completeElement : HtmlRule :=
  matchRule [.lt, .text, .slash, .gt] fun p ↦
    match p.stack with
    | _ :: _ :: e1 :: _ :: rest => do
      let content ← content { p with stack := rest } e1
      let p := { p with stack := [] }
      match content.dropWhile (· ≠ ' ') with
      | [] =>
        .ok { tell (tell p (.startElement content none)) (.endElement content) with state := .free }
      | attr =>
        let name := content.takeWhile (· ≠ ' ')
        .ok { tell (tell p (.startElement name (some (trim attr)))) (.endElement name) with
          state := .free }
    | _ => .error (.noSuchElement, p)

/-- `EndElement` and `EndDirective`: the text between two tokens is told, as `event`. -/
def endRule (begins : Token) (event : List Char → Event) : HtmlRule :=
  matchRule [begins, .text, .gt] fun p ↦
    match p.stack with
    | _ :: e1 :: _ :: rest => do
      let p := { p with stack := rest }
      let content ← content p e1
      .ok { tell (flushText p) (event content) with state := .free }
    | _ => .error (.noSuchElement, p)

/-- `EndElement` -/
def endElement : HtmlRule :=
  endRule .close .endElement

/-- `EndDirective` -/
def endDirective : HtmlRule :=
  endRule .declDirective .directive

/-- `Directive` -/
def directive : HtmlRule := fun p entity ↦
  if entity.token = .lsb then .ok (true, { p with lookahead := some .cdata })
  else if entity.token = .dash then .ok (true, { p with lookahead := some .comment })
  else .ok (false, p)

/-- `CData` -/
def cdata : HtmlRule := fun p entity ↦
  if entity.token ≠ .text then p.error
  else .ok (true, { p with lookahead := some .cdataNext })

/-- `CData.next` -/
def cdataNext : HtmlRule := fun p entity ↦
  if entity.token ≠ .lsb then p.error
  else .ok (true, { p with stack := [], state := .cdata })

/-- The text that is left on the stack, in the first entity. -/
def joined (rest : List (Entity Token)) : List Char :=
  rest.reverse.flatMap toString

/-- `EndCData` -/
def endCData : HtmlRule :=
  matchRule [.rsb, .rsb, .gt] fun p ↦
    match p.stack with
    | _ :: _ :: _ :: [] => .error (.noSuchElement, { p with stack := [] })
    | _ :: _ :: _ :: rest =>
      .ok { tell { p with stack := [] } (.cdata (joined rest)) with state := .free }
    | _ => .error (.noSuchElement, p)

/-- `Comment` -/
def comment : HtmlRule := fun p entity ↦
  if entity.token ≠ .dash then p.error
  else .ok (true, { p with lookahead := some .commentNext, stack := [], state := .comment })

/-- `Comment.next` -/
def commentNext : HtmlRule := fun p entity ↦
  if entity.token = .dash then p.error
  else if entity.token = .gt then p.error
  else .ok (false, p)

/-- `StartComment` -/
def startComment : HtmlRule :=
  matchRule [.lt, .bang, .dash, .dash] fun p ↦
    .ok { p with lookahead := some .startCommentNext }

/-- `StartComment.next` -/
def startCommentNext : HtmlRule := fun p entity ↦
  if entity.token = .gt then .ok (false, p) else p.error

/-- `EndComment` -/
def endComment : HtmlRule :=
  matchRule [.dash, .dash, .gt] fun p ↦
    match p.stack with
    | _ :: _ :: _ :: [] => .ok { p with stack := [] }
    | _ :: _ :: _ :: rest =>
      .ok { tell { p with stack := [] } (.comment (joined rest)) with state := .free }
    | _ => .error (.noSuchElement, p)

/-- `StartQuote` -/
def startQuote : HtmlRule := fun p entity ↦
  if entity.token = .quote ∨ entity.token = .squote then
    .ok (true, { p with
      state := .quoted entity.token p.state
      stack := ⟨.text, .string (toString entity)⟩ :: p.stack.tail })
  else
    .ok (false, p)

/-- `Quoted.apply`: whichever quote it is, the text is closed with `"`. -/
def endQuote (token : Token) (state : State) : HtmlRule := fun p entity ↦
  if entity.token ≠ token then .ok (false, p)
  else
    match p.stack with
    | _ :: last :: rest =>
      .ok (true, { p with stack := promoteAppend last ['"'] :: rest, state := state })
    | _ => .error (.noSuchElement, p)

/-! ### The grammar -/

/-- `State.getTokens` -/
def getTokens : State → List Token
  | .free => [.lt, .amp, .semi, .text]
  | .element => [.bang, .amp, .lt, .semi, .slash, .gt, .quote, .squote, .text]
  | .directive => [.dash, .lsb, .rsb, .lt, .gt, .quote, .squote, .text]
  | .cdata => [.lsb, .rsb, .gt, .text]
  | .comment => [.dash, .gt, .text]
  | .quoted token _ => [token, .text]

/-- `State.getRules` -/
def getRules : State → List HtmlRule
  | .free => [beginElement, escaped, mergeText]
  | .element => [mergeText, startQuote, startElement, endElement, completeElement, escaped, cleanup]
  | .directive => [startQuote, endDirective, mergeText]
  | .cdata => [endCData]
  | .comment => [endComment, startComment]
  | .quoted token state => [endQuote token state, mergeText]

/-- A lookahead, as the rule that it is. -/
def lookahead : Lookahead → HtmlRule
  | .cleanupNext => cleanupNext
  | .beginElementNext => beginElementNext
  | .directive => directive
  | .cdata => cdata
  | .cdataNext => cdataNext
  | .comment => comment
  | .commentNext => commentNext
  | .startCommentNext => startCommentNext

end HtmlGrammar

open HtmlGrammar in
/-- `HtmlGrammar` -/
def htmlGrammar : Grammar State Token Lookahead Event where
  getTokens := getTokens
  getRules := getRules
  matchesByte := Token.matchesByte
  runs := Token.runs
  lookahead := lookahead
  start p := { tell p .startDocument with state := .free }
  end_ p := tell p .endDocument

/-! ### Termination -/

namespace HtmlGrammar

/-- How much a token counts for: a quote becomes text. -/
def tokenWeight : Token → ℕ
  | .quote => 3
  | .squote => 3
  | _ => 2

def stackWeight (stack : List (Entity Token)) : ℕ :=
  (stack.map fun e ↦ tokenWeight e.token).sum

/-- Every rule makes the stack lighter, or leaves the state `free`. -/
def weight (state : State) (stack : List (Entity Token)) : ℕ :=
  stackWeight stack + if state = .free then 1 else 0

/-- In a comment there are only dashes, brackets and text; a quoted part is one of a tag. -/
def Inv : State → List (Entity Token) → Prop
  | .comment, stack => ∀ e ∈ stack, e.token = .dash ∨ e.token = .gt ∨ e.token = .text
  | .quoted token state, _ => token ≠ .text ∧ (state = .element ∨ state = .directive)
  | _, _ => True

theorem tokenWeight_le (t : Token) : tokenWeight t ≤ 3 := by
  cases t <;> decide

theorem two_le_tokenWeight (t : Token) : 2 ≤ tokenWeight t := by
  cases t <;> decide

@[simp]
theorem stackWeight_nil : stackWeight [] = 0 :=
  rfl

@[simp]
theorem stackWeight_cons (e : Entity Token) (stack : List (Entity Token)) :
    stackWeight (e :: stack) = tokenWeight e.token + stackWeight stack :=
  rfl

theorem stackWeight_le (stack : List (Entity Token)) : stackWeight stack ≤ 3 * stack.length := by
  induction stack with
  | nil => exact Nat.le_refl 0
  | cons e stack ih =>
    have := tokenWeight_le e.token
    rw [stackWeight_cons, List.length_cons]
    omega

theorem tokenWeight_promoteAppend (e : Entity Token) (s : List Char) :
    tokenWeight (promoteAppend e s).token ≤ tokenWeight e.token := by
  have := two_le_tokenWeight e.token
  rw [promoteAppend]
  split
  · exact Nat.le_refl _
  · exact this

/-- Text that is told leaves the stack to the last entity. -/
theorem stackWeight_flushText (p : HtmlParser) :
    stackWeight (flushText p).stack ≤ stackWeight p.stack := by
  rw [flushText]
  split
  · exact Nat.le_refl _
  · next last rest h => simp [h]

variable {p : HtmlParser} {entity : Entity Token} {rest : List (Entity Token)}

/-- What is on top is no text if its token is not. -/
theorem not_textOnTop (hp : p.stack = entity :: rest) (h : entity.token ≠ .text) :
    ¬htmlGrammar.TextOnTop p.stack := by
  rw [hp]
  intro htext
  have : (entity.token == .text) = true := htext entity rfl
  exact h (by simpa using this)

/-- A rule for tokens that are not text may do anything that makes the stack lighter. -/
theorem lighter_of_not_text (hp : p.stack = entity :: rest) (h : entity.token ≠ .text)
    {p' : HtmlParser} (hinv : Inv p'.state p'.stack)
    (hlt : weight p'.state p'.stack < weight p.state p.stack) :
    htmlGrammar.Lighter Inv weight p p' :=
  ⟨hinv, hlt, fun ht ↦ absurd ht (not_textOnTop hp h), fun ht ↦ absurd ht (not_textOnTop hp h)⟩

/-- What a pattern of two tokens says of the stack. -/
theorem stack_of_two {c d : Token} (h : (p.stack.take 2).map Entity.token = [d, c]) :
    ∃ e1 e0 rest, p.stack = e1 :: e0 :: rest ∧ e1.token = d ∧ e0.token = c := by
  rcases hp : p.stack with _ | ⟨e1, _ | ⟨e0, rest⟩⟩ <;> simp [hp] at h
  exact ⟨e1, e0, rest, rfl, h.1, h.2⟩

/-- What a pattern of three tokens says of the stack. -/
theorem stack_of_three {b c d : Token} (h : (p.stack.take 3).map Entity.token = [d, c, b]) :
    ∃ e2 e1 e0 rest, p.stack = e2 :: e1 :: e0 :: rest ∧ e2.token = d ∧ e1.token = c ∧
      e0.token = b := by
  rcases hp : p.stack with _ | ⟨e2, _ | ⟨e1, _ | ⟨e0, rest⟩⟩⟩ <;> simp [hp] at h
  exact ⟨e2, e1, e0, rest, rfl, h.1, h.2.1, h.2.2⟩

/-- What a pattern of four tokens says of the stack. -/
theorem stack_of_four {a b c d : Token} (h : (p.stack.take 4).map Entity.token = [d, c, b, a]) :
    ∃ e3 e2 e1 e0 rest, p.stack = e3 :: e2 :: e1 :: e0 :: rest ∧ e3.token = d ∧ e2.token = c ∧
      e1.token = b ∧ e0.token = a := by
  rcases hp : p.stack with _ | ⟨e3, _ | ⟨e2, _ | ⟨e1, _ | ⟨e0, rest⟩⟩⟩⟩ <;> simp [hp] at h
  exact ⟨e3, e2, e1, e0, rest, rfl, h.1, h.2.1, h.2.2.1, h.2.2.2⟩

/-- An entity without text is a null pointer. -/
theorem ends_content (p : HtmlParser) (e : Entity Token) : Ends (fun _ ↦ True) (content p e) := by
  rw [content]
  split
  · exact fun h ↦ nomatch h
  · trivial
  · trivial

/-- Text is merged with the text before it. -/
theorem ends_mergeText (hinv : ∀ stack, Inv p.state stack) :
    Ends (htmlGrammar.Applied Inv weight p) (mergeText p entity) := by
  refine Outcome.matchRule (fun hmatch ↦ ?_) ⟨rfl, rfl⟩
  obtain ⟨t2, t1, rest, hp, ht2, ht1⟩ := stack_of_two hmatch
  have htoken : (promoteAppend t1 (toString t2)).token = .text := by
    rw [promoteAppend]
    split
    · exact ht1
    · rfl
  rw [hp]
  refine ⟨hinv _, ?_, fun _ ↦ rfl, fun _ e he ↦ ?_⟩
  · rw [weight, weight, hp, stackWeight_cons, stackWeight_cons, stackWeight_cons, htoken, ht1, ht2]
    simp [tokenWeight]
  · obtain rfl := Option.some.inj he
    rw [htoken]
    rfl

/-- `&`, text and `;` become one text. -/
theorem ends_escaped (hinv : ∀ stack, Inv p.state stack) :
    Ends (htmlGrammar.Applied Inv weight p) (escaped p entity) := by
  refine Outcome.matchRule (fun hmatch ↦ ?_) ⟨rfl, rfl⟩
  obtain ⟨e2, e1, e0, rest, hp, he2, he1, -⟩ := stack_of_three hmatch
  rw [hp]
  refine lighter_of_not_text hp (by simp [he2]) (hinv _) ?_
  have := tokenWeight_promoteAppend e0 (toString e1 ++ toString e2)
  have := two_le_tokenWeight e1.token
  rw [weight, weight, hp, stackWeight_cons, stackWeight_cons, stackWeight_cons, stackWeight_cons]
  dsimp only
  omega

/-- At `<` the text before it is told, and the state `free` is left. -/
theorem ends_beginElement (hp : p.stack = entity :: rest) (hstate : p.state = .free) :
    Ends (htmlGrammar.Applied Inv weight p) (beginElement p entity) := by
  rw [beginElement]
  split
  · exact ⟨rfl, rfl⟩
  · next hlt =>
    refine lighter_of_not_text hp (by simp [not_not.1 hlt]) trivial ?_
    have := stackWeight_flushText p
    rw [weight, weight, hstate]
    simp
    omega

/-- The rules for the end of a tag or directive take off three tokens at least, and lead to the
state `free`. -/
theorem lighter_free {e2 e1 e0 : Entity Token} {rest : List (Entity Token)}
    (hp : p.stack = e2 :: e1 :: e0 :: rest) (he2 : e2.token = .gt) {p' : HtmlParser}
    (hstate : p'.state = .free) (hstack : stackWeight p'.stack ≤ stackWeight rest) :
    htmlGrammar.Lighter Inv weight p p' := by
  refine lighter_of_not_text hp (by simp [he2]) (by rw [hstate]; trivial) ?_
  have := two_le_tokenWeight e1.token
  rw [weight, weight, hp, hstate, stackWeight_cons, stackWeight_cons, stackWeight_cons, he2]
  simp only [tokenWeight, if_true]
  omega

/-- A start tag leaves the stack with its `>`. -/
theorem ends_startElement : Ends (htmlGrammar.Applied Inv weight p) (startElement p entity) := by
  refine Outcome.matchRule (fun hmatch ↦ ?_) ⟨rfl, rfl⟩
  obtain ⟨e2, e1, e0, rest, hp, he2, -, -⟩ := stack_of_three hmatch
  rw [hp]
  refine (ends_content _ e1).bind fun s _ ↦ ?_
  exact lighter_free hp he2 rfl (stackWeight_flushText { p with stack := rest })

/-- So do an end tag and a directive. -/
theorem ends_endRule (begins : Token) (event : List Char → Event) :
    Ends (htmlGrammar.Applied Inv weight p) (endRule begins event p entity) := by
  refine Outcome.matchRule (fun hmatch ↦ ?_) ⟨rfl, rfl⟩
  obtain ⟨e2, e1, e0, rest, hp, he2, -, -⟩ := stack_of_three hmatch
  rw [hp]
  refine (ends_content _ e1).bind fun s _ ↦ ?_
  exact lighter_free hp he2 rfl (stackWeight_flushText { p with stack := rest })

/-- So does an element that ends with `/>`. -/
theorem ends_completeElement :
    Ends (htmlGrammar.Applied Inv weight p) (completeElement p entity) := by
  refine Outcome.matchRule (fun hmatch ↦ ?_) ⟨rfl, rfl⟩
  obtain ⟨e3, e2, e1, e0, rest, hp, he3, -, -, -⟩ := stack_of_four hmatch
  rw [hp]
  refine (ends_content _ e1).bind fun s _ ↦ ?_
  have hfree : ∀ p' : HtmlParser, p'.state = .free → p'.stack = [] →
      htmlGrammar.Lighter Inv weight p p' := by
    intro p' hstate hstack
    refine lighter_free hp he3 hstate ?_
    rw [hstack]
    exact Nat.zero_le _
  dsimp only
  split
  · exact hfree _ rfl rfl
  · exact hfree _ rfl rfl

/-- A section of character data ends with two brackets before the `>`. -/
theorem ends_endCData : Ends (htmlGrammar.Applied Inv weight p) (endCData p entity) := by
  refine Outcome.matchRule (fun hmatch ↦ ?_) ⟨rfl, rfl⟩
  obtain ⟨e2, e1, e0, rest, hp, he2, -, -⟩ := stack_of_three hmatch
  rw [hp]
  cases rest with
  | nil => exact fun h ↦ nomatch h
  | cons e rest => exact lighter_free hp he2 rfl (Nat.zero_le _)

/-- A comment ends with two dashes before the `>`. -/
theorem ends_endComment (hstate : p.state = .comment) :
    Ends (htmlGrammar.Applied Inv weight p) (endComment p entity) := by
  refine Outcome.matchRule (fun hmatch ↦ ?_) ⟨rfl, rfl⟩
  obtain ⟨e2, e1, e0, rest, hp, he2, -, -⟩ := stack_of_three hmatch
  rw [hp]
  cases rest with
  | nil =>
    refine lighter_of_not_text hp (by simp [he2]) ?_ ?_
    · rw [hstate]
      exact fun e he ↦ nomatch he
    · rw [weight, weight, hp, hstate, stackWeight_cons, he2]
      exact Nat.add_pos_left (Nat.add_pos_left Nat.zero_lt_two _) _
  | cons e rest => exact lighter_free hp he2 rfl (Nat.zero_le _)

/-- `StartComment` would apply for ever, but nothing in a comment is what it waits for. -/
theorem ends_startComment (hstate : p.state = .comment) (hinv : Inv p.state p.stack) :
    Ends (htmlGrammar.Applied Inv weight p) (startComment p entity) := by
  refine Outcome.matchRule (fun hmatch ↦ ?_) ⟨rfl, rfl⟩
  obtain ⟨e3, e2, e1, e0, rest, hp, -, -, he1, -⟩ := stack_of_four hmatch
  rw [hstate, hp] at hinv
  have he1' := hinv e1 (by simp)
  rw [he1] at he1'
  simp at he1'

/-- A quote becomes text, which counts for less. -/
theorem ends_startQuote (hp : p.stack = entity :: rest)
    (hstate : p.state = .element ∨ p.state = .directive) :
    Ends (htmlGrammar.Applied Inv weight p) (startQuote p entity) := by
  rw [startQuote]
  split
  · next hquote =>
    have hweight : tokenWeight entity.token = 3 := by
      obtain h | h := hquote <;> rw [h] <;> rfl
    have hne : entity.token ≠ .text := by
      intro h
      rw [h] at hweight
      cases hweight
    refine lighter_of_not_text hp hne ⟨hne, hstate⟩ ?_
    rw [weight, weight, hp, List.tail_cons, stackWeight_cons, stackWeight_cons, hweight]
    simp [tokenWeight]
    omega
  · exact ⟨rfl, rfl⟩

/-- The end of a quoted part joins the text before it, and leads back to the tag. -/
theorem ends_endQuote {token : Token} {state : State} (hp : p.stack = entity :: rest)
    (hp' : p.state = .quoted token state) (hinv : Inv p.state p.stack) :
    Ends (htmlGrammar.Applied Inv weight p) (endQuote token state p entity) := by
  rw [endQuote]
  split
  · exact ⟨rfl, rfl⟩
  · next h =>
    rw [not_not] at h
    rw [hp]
    cases rest with
    | nil => exact fun he ↦ nomatch he
    | cons last rest =>
      rw [hp'] at hinv
      obtain ⟨htoken, hstate⟩ := hinv
      have := tokenWeight_promoteAppend last ['"']
      have := two_le_tokenWeight entity.token
      refine lighter_of_not_text hp (by rwa [h]) ?_ ?_
      · obtain rfl | rfl := hstate <;> trivial
      · have hfree : state ≠ .free := by
          obtain rfl | rfl := hstate <;> decide
        rw [weight, weight, hp, hp', stackWeight_cons, stackWeight_cons, stackWeight_cons,
          if_neg hfree]
        omega

/-- A slash in a tag only sets the lookahead. -/
theorem ends_cleanup : Ends (htmlGrammar.Applied Inv weight p) (cleanup p entity) := by
  rw [cleanup]
  split
  · exact ⟨rfl, rfl⟩
  · split
    · exact fun h ↦ nomatch h
    · exact ⟨rfl, rfl⟩

/-- The rules of every state end, and those that apply make the stack lighter. -/
theorem ends_rule (hinv : Inv p.state p.stack) (hp : p.stack = entity :: rest) :
    ∀ rule ∈ getRules p.state, Ends (htmlGrammar.Applied Inv weight p) (rule p entity) := by
  cases hstate : p.state with
  | free =>
    have hinv' : ∀ stack, Inv p.state stack := by rw [hstate]; exact fun _ ↦ trivial
    simp only [getRules, List.forall_mem_cons]
    exact ⟨ends_beginElement hp hstate, ends_escaped hinv', ends_mergeText hinv',
      fun _ h ↦ nomatch h⟩
  | element =>
    have hinv' : ∀ stack, Inv p.state stack := by rw [hstate]; exact fun _ ↦ trivial
    simp only [getRules, List.forall_mem_cons]
    exact ⟨ends_mergeText hinv', ends_startQuote hp (.inl hstate), ends_startElement,
      ends_endRule _ _, ends_completeElement, ends_escaped hinv', ends_cleanup, fun _ h ↦ nomatch h⟩
  | directive =>
    have hinv' : ∀ stack, Inv p.state stack := by rw [hstate]; exact fun _ ↦ trivial
    simp only [getRules, List.forall_mem_cons]
    exact ⟨ends_startQuote hp (.inr hstate), ends_endRule _ _, ends_mergeText hinv',
      fun _ h ↦ nomatch h⟩
  | cdata =>
    simp only [getRules, List.forall_mem_cons]
    exact ⟨ends_endCData, fun _ h ↦ nomatch h⟩
  | comment =>
    simp only [getRules, List.forall_mem_cons]
    exact ⟨ends_endComment hstate, ends_startComment hstate hinv, fun _ h ↦ nomatch h⟩
  | quoted token state =>
    have hinv' : ∀ stack, Inv p.state stack := by
      rw [hstate] at hinv ⊢
      exact fun _ ↦ hinv
    simp only [getRules, List.forall_mem_cons]
    exact ⟨ends_endQuote hp hstate hinv, ends_mergeText hinv', fun _ h ↦ nomatch h⟩

/-- What a lookahead leaves: after text, the state, and text if it goes on to the rules. -/
def Looked (p : HtmlParser) (entity : Entity Token) (r : Bool × HtmlParser) : Prop :=
  Inv r.2.state r.2.stack ∧ (Token.runs entity.token →
    r.2.state = p.state ∧ (r.1 = false → htmlGrammar.TextOnTop r.2.stack))

theorem textOnTop_cons (h : Token.runs entity.token) :
    htmlGrammar.TextOnTop (entity :: rest) := by
  rintro _ ⟨⟩
  exact h

theorem looked_same (hinv : Inv p.state p.stack) (hp : p.stack = entity :: rest) {p' : HtmlParser}
    (applied : Bool) (hstate : p'.state = p.state) (hstack : p'.stack = p.stack) :
    Looked p entity (applied, p') := by
  refine ⟨by rwa [hstate, hstack], fun hruns ↦ ⟨hstate, fun _ ↦ ?_⟩⟩
  rw [hstack, hp]
  exact textOnTop_cons hruns

/-- After a token that is no text, a lookahead is free. -/
theorem looked_of_not_text (h : entity.token ≠ .text) {r : Bool × HtmlParser}
    (hinv : Inv r.2.state r.2.stack) : Looked p entity r :=
  ⟨hinv, fun hruns ↦ absurd (by simpa [Token.runs] using hruns) h⟩

/-- A slash that no `>` follows joins the token behind it. -/
theorem ends_cleanupNext (hinv : Inv p.state p.stack) (hp : p.stack = entity :: rest) :
    Ends (Looked p entity) (cleanupNext p entity) := by
  rw [cleanupNext, hp]
  split
  · cases rest with
    | nil => exact fun h ↦ nomatch h
    | cons e rest =>
      refine ⟨?_, fun hruns ↦ ⟨rfl, fun _ ↦ textOnTop_cons hruns⟩⟩
      dsimp only
      rw [hp] at hinv
      cases hstate : p.state with
      | comment =>
        rw [hstate] at hinv
        have hentity := hinv entity List.mem_cons_self
        rintro e' he'
        obtain rfl | he' := List.mem_cons.1 he'
        · exact hentity
        · exact hinv e' (by simp [he'])
      | quoted token state =>
        rw [hstate] at hinv
        exact hinv
      | _ => trivial
  · exact looked_same hinv hp _ rfl rfl

/-- A slash or a `!` behind `<` replaces it. -/
theorem ends_beginElementNext (hinv : Inv p.state p.stack) (hp : p.stack = entity :: rest) :
    Ends (Looked p entity) (beginElementNext p entity) := by
  rw [beginElementNext, hp]
  split
  · next hslash =>
    cases rest with
    | nil => exact fun h ↦ nomatch h
    | cons e rest =>
      refine looked_of_not_text (by simp [hslash]) ?_
      dsimp only
      rw [hp] at hinv
      cases hstate : p.state with
      | comment =>
        rw [hstate] at hinv
        have hentity := hinv entity List.mem_cons_self
        simp [hslash] at hentity
      | quoted token state =>
        rw [hstate] at hinv
        exact hinv
      | _ => trivial
  · split
    · next hbang =>
      cases rest with
      | nil => exact fun h ↦ nomatch h
      | cons e rest => exact looked_of_not_text (by simp [hbang]) trivial
    · exact looked_same hinv hp _ rfl rfl

/-- Every lookahead of the grammar comes to an end. -/
theorem ends_lookahead (name : Lookahead) (hinv : Inv p.state p.stack)
    (hp : p.stack = entity :: rest) : Ends (Looked p entity) (lookahead name p entity) := by
  have herror : Ends (Looked p entity) (p.error : Attempt HtmlParser (Bool × HtmlParser)) :=
    fun h ↦ nomatch h
  cases name with
  | cleanupNext => exact ends_cleanupNext hinv hp
  | beginElementNext => exact ends_beginElementNext hinv hp
  | directive =>
    rw [lookahead, directive]
    split
    · exact looked_same hinv hp _ rfl rfl
    · split
      · exact looked_same hinv hp _ rfl rfl
      · exact looked_same hinv hp _ rfl rfl
  | cdata =>
    rw [lookahead, cdata]
    split
    · exact herror
    · exact looked_same hinv hp _ rfl rfl
  | cdataNext =>
    rw [lookahead, cdataNext]
    split
    · exact herror
    · next h => exact looked_of_not_text (by simp [not_not.1 h]) trivial
  | comment =>
    rw [lookahead, comment]
    split
    · exact herror
    · next h => exact looked_of_not_text (by simp [not_not.1 h]) fun e he ↦ nomatch he
  | commentNext =>
    rw [lookahead, commentNext]
    split
    · exact herror
    · split
      · exact herror
      · exact looked_same hinv hp _ rfl rfl
  | startCommentNext =>
    rw [lookahead, startCommentNext]
    split
    · exact looked_same hinv hp _ rfl rfl
    · exact herror

/-- A token that a state has keeps the invariant when it gets on the stack. -/
theorem inv_push {state : State} {stack : List (Entity Token)} {token : Token}
    (value : EntityValue) (hinv : Inv state stack) (htoken : token ∈ getTokens state) :
    Inv state (⟨token, value⟩ :: stack) := by
  cases state with
  | comment =>
    intro e he
    obtain rfl | he := List.mem_cons.1 he
    · simpa [getTokens] using htoken
    · exact hinv e he
  | quoted token state => exact hinv
  | _ => trivial

/-- The grammar of documents comes to an end with every document. -/
theorem terminating : htmlGrammar.Terminating Inv weight where
  weight_lt p _ := by
    have := stackWeight_le p.stack
    rw [weight, Grammar.turns]
    split <;> omega
  start _ := trivial
  text_mem state token htext := by
    obtain rfl : token = .text := by simpa [htmlGrammar, Token.runs] using htext
    cases state <;> simp [htmlGrammar, getTokens]
  push _ _ _ value hinv htoken := inv_push value hinv htoken
  rule _ _ _ hinv hp := ends_rule hinv hp
  lookahead _ _ _ name hinv hp := ends_lookahead name hinv hp

end HtmlGrammar

end JPype.Html
