import JPype.Html.Parser

/-!
# The grammar of attributes

`org.jpype.html.AttrGrammar` reads the attributes of a start tag: names and values are tokens of
text, and a value in quotes is read in a state of its own, in which only the closing quote is a
token. What is delivered are the attributes.

Whether a text is the name of an attribute is for the DOM to say, which is a parameter.
-/

namespace JPype.Html

open Unicode

/-- The characters that a name in XML does not have: white space and controls, the marks of a tag,
and the replacement character. -/
def IsMark (c : Char) : Prop :=
  c.toNat ≤ 0x20 ∨ c ∈ ['!', '"', '&', '\'', '/', ';', '<', '=', '>', replacement]

instance (c : Char) : Decidable (IsMark c) :=
  inferInstanceAs (Decidable (_ ∨ _))

/-- `org.w3c.dom.Document`, which tells which texts are names in XML. -/
structure Document where
  isXMLName : List Char → Bool
  isXMLName_nil : isXMLName [] = false
  not_isMark : ∀ name, isXMLName name → ∀ c ∈ name, ¬IsMark c

/-- The quotes around a value. -/
inductive Quote where
  | double
  | single
  deriving DecidableEq, Repr

def Quote.char : Quote → Char
  | double => '"'
  | single => '\''

namespace AttrGrammar

/-- `AttrGrammar.Token` -/
inductive Token where
  | text | quote | squote | eq | whitespace
  deriving DecidableEq, Repr

/-- `Token.value` -/
def Token.value : Token → UInt8
  | text => 0
  | quote => 0x22
  | squote => 0x27
  | eq => 0x3D
  | whitespace => 0x20

/-- `Character.isWhitespace` of a byte. A byte from `0x80` on is a negative number. -/
def isWhitespace (b : UInt8) : Bool :=
  (9 ≤ b.toNat && b.toNat ≤ 13) || (28 ≤ b.toNat && b.toNat ≤ 32)

/-- `Token.matches` -/
def Token.matchesByte (t : Token) (b : UInt8) : Bool :=
  if t.value = 0x20 then isWhitespace b else t.value == 0 || b == t.value

/-- `Token.runs` -/
def Token.runs (t : Token) : Bool :=
  t == .text

/-- `AttrGrammar.State` -/
inductive State where
  | free | inQuote | inSquote
  deriving DecidableEq, Repr

/-- `AttrParser`; no rule is a lookahead. -/
abbrev AttrParser := Parser State Token Empty (List Char × List Char)

/-- A parser that is new. Its state is set by `start`. -/
def AttrParser.new : AttrParser :=
  ⟨.free, none, none, [], []⟩

abbrev AttrRule := Rule State Token Empty (List Char × List Char)

/-- `(String) e.value` -/
def stringValue (p : AttrParser) (e : Entity Token) : Attempt AttrParser (List Char) :=
  match e.value with
  | .string s => .ok s
  | .null => .error (.nullPointer, p)
  | .builder _ => .error (.runtimeException "ClassCastException", p)

/-- `doc.createAttribute(name)`, with the value, added to `attrs` -/
def addAttribute (doc : Document) (p : AttrParser) (name value : List Char) :
    Attempt AttrParser AttrParser :=
  if doc.isXMLName name then .ok { p with delivered := p.delivered ++ [(name, value)] }
  else .error (.domException, p)

/-- `AttrRule` -/
def attrRule (doc : Document) : AttrRule :=
  matchRule [.text, .eq, .text] fun p ↦
    match p.stack with
    | e2 :: _ :: e0 :: rest => do
      let p := { p with stack := rest }
      let name ← stringValue p e0
      let value ← stringValue p e2
      addAttribute doc p name value
    | _ => .error (.noSuchElement, p)

/-- `BooleanRule` -/
def boolRule (doc : Document) : AttrRule :=
  matchRule [.text, .text] fun p ↦
    match p.stack with
    | e2 :: e1 :: rest => do
      let name ← stringValue { p with stack := rest } e1
      addAttribute doc { p with stack := e2 :: rest } name name
    | _ => .error (.noSuchElement, p)

/-- `IgnoreWSRule` -/
def ignoreWS : AttrRule := fun p entity ↦
  if entity.token ≠ .whitespace then .ok (false, p)
  else .ok (true, { p with stack := p.stack.tail })

/-- `QuoteRule` -/
def quoteRule : AttrRule := fun p entity ↦
  if entity.token = .quote then .ok (true, { p with state := .inQuote, stack := p.stack.tail })
  else if entity.token = .squote then
    .ok (true, { p with state := .inSquote, stack := p.stack.tail })
  else .ok (false, p)

/-- `EndQuoteRule` -/
def endRule : AttrRule := fun p entity ↦
  if p.state = .inQuote ∧ entity.token = .quote then
    .ok (true, { p with state := .free, stack := p.stack.tail })
  else if p.state = .inSquote ∧ entity.token = .squote then
    .ok (true, { p with state := .free, stack := p.stack.tail })
  else .ok (false, p)

/-- `State.getTokens` -/
def getTokens : State → List Token
  | .free => [.quote, .squote, .eq, .whitespace, .text]
  | .inQuote => [.quote, .text]
  | .inSquote => [.squote, .text]

/-- `State.getRules` -/
def getRules (doc : Document) : State → List AttrRule
  | .free => [attrRule doc, boolRule doc, ignoreWS, quoteRule]
  | .inQuote => [endRule]
  | .inSquote => [endRule]

end AttrGrammar

open AttrGrammar in
/-- `AttrGrammar`; `start` clears the attributes. -/
def attrGrammar (doc : Document) : Grammar State Token Empty (List Char × List Char) where
  getTokens := getTokens
  getRules := getRules doc
  matchesByte := Token.matchesByte
  runs := Token.runs
  lookahead name := nomatch name
  start p := { p with state := .free, delivered := [] }
  end_ p := p

namespace AttrGrammar

variable (doc : Document) {p : AttrParser} {entity : Entity Token} {rest : List (Entity Token)}

/-! ### What the rules do -/

/-- What a rule does that applies: it takes entities off the stack, and delivers no more than one
attribute. -/
structure Reduced (p p' : AttrParser) : Prop where
  length_lt : p'.stack.length < p.stack.length
  delivered : p.delivered <+: p'.delivered

/-- What may come of a rule. -/
def Applied (p : AttrParser) (r : Bool × AttrParser) : Prop :=
  if r.1 then Reduced p r.2 else r.2 = p

theorem ends_stringValue (p : AttrParser) (e : Entity Token) :
    Ends (fun _ ↦ True) (stringValue p e) := by
  rw [stringValue]
  split
  · trivial
  · exact fun h ↦ nomatch h
  · exact fun h ↦ nomatch h

theorem ends_addAttribute (p p₁ : AttrParser) (hstack : p₁.stack.length < p.stack.length)
    (hdelivered : p₁.delivered = p.delivered) (name value : List Char) :
    Ends (Reduced p) (addAttribute doc p₁ name value) := by
  rw [addAttribute]
  split
  · exact ⟨hstack, by rw [← hdelivered]; exact List.prefix_append _ _⟩
  · exact fun h ↦ nomatch h

theorem ends_attrRule : Ends (Applied p) (attrRule doc p entity) := by
  refine Outcome.matchRule (fun _ ↦ ?_) rfl
  split
  · next e2 e1 e0 rest hp =>
    refine (ends_stringValue _ e0).bind fun name _ ↦ (ends_stringValue _ e2).bind fun value _ ↦ ?_
    refine (ends_addAttribute doc p { p with stack := rest } ?_ rfl name value).mono fun _ h ↦ h
    rw [hp]
    exact Nat.lt_add_of_pos_right (Nat.zero_lt_succ 2)
  · exact fun h ↦ nomatch h

theorem ends_boolRule : Ends (Applied p) (boolRule doc p entity) := by
  refine Outcome.matchRule (fun _ ↦ ?_) rfl
  split
  · next e2 e1 rest hp =>
    refine (ends_stringValue _ e1).bind fun name _ ↦ ?_
    refine (ends_addAttribute doc p { p with stack := e2 :: rest } ?_ rfl name name).mono
      fun _ h ↦ h
    rw [hp]
    exact Nat.lt_succ_self _
  · exact fun h ↦ nomatch h

theorem applied_tail (hp : p.stack = entity :: rest) (state : State) :
    Applied p (true, { p with state := state, stack := p.stack.tail }) := by
  refine ⟨?_, List.prefix_rfl⟩
  rw [hp]
  exact Nat.lt_succ_self _

theorem ends_rule (hp : p.stack = entity :: rest) :
    ∀ rule ∈ getRules doc p.state, Ends (Applied p) (rule p entity) := by
  have hend : Ends (Applied p) (endRule p entity) := by
    rw [endRule]
    split
    · exact applied_tail hp _
    · split
      · exact applied_tail hp _
      · exact rfl
  cases p.state with
  | free =>
    simp only [getRules, List.forall_mem_cons]
    refine ⟨ends_attrRule doc, ends_boolRule doc, ?_, ?_, fun _ h ↦ nomatch h⟩
    · rw [ignoreWS]
      split
      · exact rfl
      · exact applied_tail hp _
    · rw [quoteRule]
      split
      · exact applied_tail hp _
      · split
        · exact applied_tail hp _
        · exact rfl
  | inQuote =>
    simp only [getRules, List.forall_mem_cons]
    exact ⟨hend, fun _ h ↦ nomatch h⟩
  | inSquote =>
    simp only [getRules, List.forall_mem_cons]
    exact ⟨hend, fun _ h ↦ nomatch h⟩

theorem ends_applyRules (hne : p.stack ≠ []) (rules : List AttrRule)
    (hrules : ∀ rule ∈ rules, rule ∈ getRules doc p.state) :
    Ends (Applied p) (Grammar.applyRules rules p) := by
  obtain ⟨entity, rest, hp⟩ := List.exists_cons_of_ne_nil hne
  induction rules with
  | nil => exact rfl
  | cons rule rules ih =>
    rw [List.forall_mem_cons] at hrules
    rw [Grammar.applyRules, hp]
    refine (ends_rule doc hp rule hrules.1).bind fun r hr ↦ ?_
    obtain ⟨applied, p'⟩ := r
    cases applied with
    | true => exact hr
    | false =>
      obtain rfl : p' = p := hr
      exact ih hrules.2

/-- The loop ends, since every turn takes something off the stack; and no attribute is taken
back. -/
theorem ends_settle (n : ℕ) : ∀ p : AttrParser, p.stack.length < n →
    Ends (fun p' : AttrParser ↦ p.delivered <+: p'.delivered) ((attrGrammar doc).settle n p) := by
  induction n with
  | zero => exact fun p h ↦ absurd h (Nat.not_lt_zero _)
  | succ n ih =>
    intro p hlt
    rw [Grammar.settle]
    split
    · exact List.prefix_rfl
    · next hp =>
      refine (ends_applyRules doc (by simp [hp]) _ fun _ hr ↦ hr).bind fun r hr ↦ ?_
      obtain ⟨applied, p'⟩ := r
      cases applied with
      | true =>
        obtain ⟨hlength, hdelivered⟩ := show Reduced p p' from hr
        exact (ih p' (by omega)).mono fun _ h ↦ hdelivered.trans h
      | false =>
        obtain rfl : p' = p := hr
        exact List.prefix_rfl

theorem ends_processToken (p : AttrParser) (token : Option Token) (value : EntityValue) :
    Ends (fun p' : AttrParser ↦ p.delivered <+: p'.delivered)
      ((attrGrammar doc).processToken p token value) := by
  cases token with
  | none => exact List.prefix_rfl
  | some token =>
    rw [Grammar.processToken]
    split
    · refine ends_settle doc _ _ ?_
      rw [Grammar.turns]
      omega
    · next name _ => exact name.elim

theorem ends_flushTokens (s : Grammar.Buffered State Token Empty (List Char × List Char)) :
    Ends (fun s' ↦ s.1.delivered <+: s'.1.delivered) ((attrGrammar doc).flushTokens s) := by
  rw [Grammar.flushTokens]
  split
  · exact List.prefix_rfl
  · exact (ends_processToken doc s.1 _ _).bind fun _ h ↦ h

theorem ends_flushIf (c : Prop) [Decidable c]
    (s : Grammar.Buffered State Token Empty (List Char × List Char)) :
    Ends (fun s' ↦ s.1.delivered <+: s'.1.delivered) ((attrGrammar doc).flushIf c s) := by
  rw [Grammar.flushIf]
  split
  · exact ends_flushTokens doc s
  · exact List.prefix_rfl

theorem ends_processByte (s : Grammar.Buffered State Token Empty (List Char × List Char))
    (b : UInt8) :
    Ends (fun s' ↦ s.1.delivered <+: s'.1.delivered) ((attrGrammar doc).processByte s b) := by
  rw [Grammar.processByte]
  split
  · exact fun h ↦ nomatch h
  · split
    · refine (ends_flushIf doc _ s).bind fun s₁ h₁ ↦ (ends_flushIf doc _ s₁).bind fun s₂ h₂ ↦ ?_
      exact h₁.trans h₂
    · refine (ends_flushTokens doc s).bind fun s₁ h₁ ↦ ?_
      exact (ends_processToken doc s₁.1 _ _).bind fun p h₂ ↦ h₁.trans h₂

/-- The attributes that have been delivered stay. -/
theorem ends_process (bytes : List UInt8) :
    ∀ s : Grammar.Buffered State Token Empty (List Char × List Char),
      Ends (fun s' ↦ s.1.delivered <+: s'.1.delivered) ((attrGrammar doc).process s bytes) :=
  fun s ↦ Outcome.foldlM (fun b _ s₁ h₁ ↦ (ends_processByte doc s₁ b).mono fun _ h₂ ↦ h₁.trans h₂) s
    List.prefix_rfl

/-- Attributes are read to the end. -/
theorem parse_ne_nontermination (p p' : AttrParser) (attr : List Char) :
    (attrGrammar doc).parse p attr ≠ .error (.nontermination, p') := by
  have hparse : Ends (fun _ : AttrParser ↦ True) ((attrGrammar doc).parse p attr) :=
    (ends_process doc (utf8 attr) _).bind fun s _ ↦ (ends_flushTokens doc s).bind fun _ _ ↦ trivial
  exact hparse.ne_nontermination p'

end AttrGrammar

end JPype.Html
