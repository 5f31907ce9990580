import JPype.Text.Utf8Decoding

/-!
# The document parser

`org.jpype.html.Parser` turns the bytes of a document into tokens, keeps these on a stack, and lets
the rules of a grammar rewrite the stack; in a state, the grammar has tokens and rules. A token of
text collects bytes in a buffer of 1024 bytes, which is flushed, as a token with the decoded text,
before the next token and when it is full.

The stack is a list with the last entity first. Rules are named where the parser remembers one as
its lookahead. What fails keeps the parser as it is at that time, with what it has delivered.

The platform's default charset, which `getBytes()` and `new String(byte[], int, int)` go by, is
taken to be UTF-8.

How the bytes arrive makes no difference (`parseStream_eq_parse`); and where every rule that applies
makes the stack lighter, parsing comes to an end (`Grammar.Terminating.parse`).
-/

namespace JPype.Html

open Unicode

/-- What `Parser.parse` can throw, and that it does not return. -/
inductive ParseError where
  | runtimeException (message : String)
  | noSuchElement
  | nullPointer
  | domException
  | nontermination
  deriving DecidableEq, Repr

/-- The value of an entity: text, which rules append to once it is a builder. -/
inductive EntityValue where
  | null
  | string (s : List Char)
  | builder (s : List Char)
  deriving DecidableEq, Repr

/-- `Parser.Entity` -/
structure Entity (τ : Type) where
  token : τ
  value : EntityValue
  deriving DecidableEq, Repr

/-- A parser, with the states `σ`, the tokens `τ` and the lookahead rules `ρ` of its grammar, and
what it has delivered. -/
structure Parser (σ τ ρ ε : Type) where
  state : σ
  last : Option τ
  lookahead : Option ρ
  stack : List (Entity τ)
  delivered : List ε
  deriving DecidableEq, Repr

/-- What comes of a call that may throw. -/
abbrev Attempt (π α : Type) := Except (ParseError × π) α

/-- `Parser.Rule.apply`, with the parser after it. -/
abbrev Rule (σ τ ρ ε : Type) :=
  Parser σ τ ρ ε → Entity τ → Attempt (Parser σ τ ρ ε) (Bool × Parser σ τ ρ ε)

/-- `Parser.Grammar`, with its states and tokens. -/
structure Grammar (σ τ ρ ε : Type) where
  getTokens : σ → List τ
  getRules : σ → List (Rule σ τ ρ ε)
  matchesByte : τ → UInt8 → Bool
  runs : τ → Bool
  lookahead : ρ → Rule σ τ ρ ε
  start : Parser σ τ ρ ε → Parser σ τ ρ ε
  end_ : Parser σ τ ρ ε → Parser σ τ ρ ε

section MatchRule

variable {σ τ ρ ε : Type} [DecidableEq τ]

/-- `Parser.MatchRule`: the tokens of the last entities are the pattern. -/
def matchRule (pattern : List τ)
    (execute : Parser σ τ ρ ε → Attempt (Parser σ τ ρ ε) (Parser σ τ ρ ε)) : Rule σ τ ρ ε :=
  fun p _ ↦
    if (p.stack.take pattern.length).map Entity.token = pattern.reverse then
      (execute p).map fun p' ↦ (true, p')
    else
      .ok (false, p)

end MatchRule

namespace Parser

variable {σ τ ρ ε : Type}

/-- `error`, which does not say what it is told. -/
def error (p : Parser σ τ ρ ε) {α : Type} : Attempt (Parser σ τ ρ ε) α :=
  .error (.runtimeException "bad_token", p)

end Parser

namespace Grammar

variable {σ τ ρ ε : Type} (g : Grammar σ τ ρ ε)

/-- The first of the rules that applies. -/
def applyRules : List (Rule σ τ ρ ε) → Parser σ τ ρ ε →
    Attempt (Parser σ τ ρ ε) (Bool × Parser σ τ ρ ε)
  | [], p => .ok (false, p)
  | rule :: rules, p =>
    match p.stack with
    | [] => .error (.noSuchElement, p)
    | entity :: _ => do
      let (applied, p) ← rule p entity
      if applied then .ok (true, p) else applyRules rules p

/-- The loop of `processToken`: rules are applied until none does. -/
def settle : ℕ → Parser σ τ ρ ε → Attempt (Parser σ τ ρ ε) (Parser σ τ ρ ε)
  | 0, p => .error (.nontermination, p)
  | n + 1, p =>
    match p.stack with
    | [] => .ok p
    | _ :: _ => do
      let (applied, p) ← applyRules (g.getRules p.state) p
      if applied then settle n p else .ok p

/-- More turns of the loop than a stack of this size allows. -/
def turns (p : Parser σ τ ρ ε) : ℕ :=
  3 * p.stack.length + 2

/-- `processToken`, after the token has been added and its lookahead been taken. -/
def reduce (p : Parser σ τ ρ ε) : Attempt (Parser σ τ ρ ε) (Parser σ τ ρ ε) :=
  g.settle (turns p) p

/-- `processToken` -/
def processToken (p : Parser σ τ ρ ε) (token : Option τ) (value : EntityValue) :
    Attempt (Parser σ τ ρ ε) (Parser σ τ ρ ε) :=
  match token with
  | none => .ok p
  | some token =>
    let entity : Entity τ := ⟨token, value⟩
    match p.lookahead with
    | none => g.reduce { p with stack := entity :: p.stack }
    | some rule1 => do
      let (applied, p) ← g.lookahead rule1
        { p with stack := entity :: p.stack, lookahead := none } entity
      if applied then .ok p else g.reduce p

/-- The size of the buffers. -/
def capacity : ℕ := 1024

/-- A parser and its buffer of text. -/
abbrev Buffered (σ τ ρ ε : Type) := Parser σ τ ρ ε × List UInt8

/-- `flushTokens` -/
def flushTokens (s : Buffered σ τ ρ ε) : Attempt (Parser σ τ ρ ε) (Buffered σ τ ρ ε) :=
  match s.2 with
  | [] => .ok s
  | _ :: _ => do
    let p ← g.processToken s.1 s.1.last (.string (decodeUtf8 s.2))
    .ok (p, [])

/-- `flushTokens`, on a condition. -/
def flushIf (c : Prop) [Decidable c] (s : Buffered σ τ ρ ε) :
    Attempt (Parser σ τ ρ ε) (Buffered σ τ ρ ε) :=
  if c then g.flushTokens s else .ok s

variable [DecidableEq τ]

/-- The body of the loop of `process`. -/
def processByte (s : Buffered σ τ ρ ε) (b : UInt8) :
    Attempt (Parser σ τ ρ ε) (Buffered σ τ ρ ε) :=
  match (g.getTokens s.1.state).find? (g.matchesByte · b) with
  | none => s.1.error
  | some token =>
    if g.runs token then do
      let s ← g.flushIf (s.1.last ≠ some token) s
      let s ← g.flushIf (s.2.length = capacity) s
      .ok ({ s.1 with last := some token }, s.2 ++ [b])
    else do
      let s ← g.flushTokens s
      let p ← g.processToken s.1 (some token) .null
      .ok ({ p with last := some token }, s.2)

/-- `process`, on the bytes of the buffer that have been read. -/
def process (s : Buffered σ τ ρ ε) (bytes : List UInt8) :
    Attempt (Parser σ τ ρ ε) (Buffered σ τ ρ ε) :=
  bytes.foldlM g.processByte s

/-- The parser with the stack cleared, after `start`. -/
def begin (p : Parser σ τ ρ ε) : Parser σ τ ρ ε :=
  g.start { p with stack := [] }

/-- `parse` of a string. -/
def parse (p : Parser σ τ ρ ε) (str : List Char) : Attempt (Parser σ τ ρ ε) (Parser σ τ ρ ε) := do
  let s ← g.process (g.begin p, []) (utf8 str)
  let s ← g.flushTokens s
  .ok (g.end_ s.1)

/-- The loop of `parse` of a stream: every read overwrites the start of the buffer. -/
def readAll (s : Buffered σ τ ρ ε) (incoming : List UInt8) :
    List (List UInt8) → Attempt (Parser σ τ ρ ε) (Buffered σ τ ρ ε)
  | [] => .ok s
  | bytes :: reads => do
    let incoming := bytes ++ incoming.drop bytes.length
    let s ← g.process s (incoming.take bytes.length)
    readAll s incoming reads

/-- `parse` of a stream, which is given by what it answers to the reads. -/
def parseStream (p : Parser σ τ ρ ε) (reads : List (List UInt8)) :
    Attempt (Parser σ τ ρ ε) (Parser σ τ ρ ε) := do
  let s ← g.readAll (g.begin p, []) (List.replicate capacity 0) reads
  let s ← g.flushTokens s
  .ok (g.end_ s.1)

/-! ### How the bytes arrive -/

theorem process_append (s : Buffered σ τ ρ ε) (bytes bytes' : List UInt8) :
    g.process s (bytes ++ bytes') = g.process s bytes >>= fun s ↦ g.process s bytes' :=
  List.foldlM_append

theorem readAll_eq_process (reads : List (List UInt8)) (incoming : List UInt8) :
    ∀ s : Buffered σ τ ρ ε, g.readAll s incoming reads = g.process s reads.flatten := by
  induction reads generalizing incoming with
  | nil => exact fun _ ↦ rfl
  | cons bytes reads ih =>
    intro s
    rw [readAll, List.flatten_cons, process_append, List.take_left]
    exact congrArg _ (funext fun s' ↦ ih _ s')

/-- A stream is parsed like the string that it spells, however it is read. -/
theorem parseStream_eq_parse (p : Parser σ τ ρ ε) {reads : List (List UInt8)} {str : List Char}
    (h : reads.flatten = utf8 str) : g.parseStream p reads = g.parse p str := by
  rw [parseStream, readAll_eq_process, h, parse]

end Grammar

/-! ### Outcomes -/

/-- A call throws only what `fail` allows, and returns only what `post` describes. -/
def Outcome {π α : Type} (fail : ParseError → Prop) (post : α → Prop) : Attempt π α → Prop
  | .error (e, _) => fail e
  | .ok a => post a

/-- A call comes to an end; where it returns, the result is as described. -/
abbrev Ends {π α : Type} (post : α → Prop) (x : Attempt π α) : Prop :=
  Outcome (· ≠ .nontermination) post x

/-- A call returns, and what it returns is as described. -/
abbrev Returns {π α : Type} (post : α → Prop) (x : Attempt π α) : Prop :=
  Outcome (fun _ ↦ False) post x

section Outcome

variable {π α β : Type} {fail : ParseError → Prop} {post : α → Prop} {post' : β → Prop}

theorem Outcome.bind {x : Attempt π α} {f : α → Attempt π β} (hx : Outcome fail post x)
    (hf : ∀ a, post a → Outcome fail post' (f a)) : Outcome fail post' (x >>= f) := by
  cases x with
  | error e => exact hx
  | ok a => exact hf a hx

theorem Outcome.mono {x : Attempt π α} {post' : α → Prop} (hx : Outcome fail post x)
    (h : ∀ a, post a → post' a) : Outcome fail post' x := by
  cases x with
  | error e => exact hx
  | ok a => exact h a hx

theorem Outcome.map {x : Attempt π α} {f : α → β} (hx : Outcome fail post x)
    (hf : ∀ a, post a → post' (f a)) : Outcome fail post' (x.map f) := by
  cases x with
  | error e => exact hx
  | ok a => exact hf a hx

theorem Outcome.matchRule {σ τ ρ ε : Type} [DecidableEq τ] {pattern : List τ}
    {execute : Parser σ τ ρ ε → Attempt (Parser σ τ ρ ε) (Parser σ τ ρ ε)}
    {post : Bool × Parser σ τ ρ ε → Prop} {p : Parser σ τ ρ ε} {entity : Entity τ}
    (hmatch : (p.stack.take pattern.length).map Entity.token = pattern.reverse →
      Outcome fail (fun p' ↦ post (true, p')) (execute p)) (hfalse : post (false, p)) :
    Outcome fail post (matchRule pattern execute p entity) := by
  rw [Html.matchRule]
  split
  · next h => exact (hmatch h).map fun _ hp' ↦ hp'
  · exact hfalse

theorem Outcome.foldlM {ι : Type} {step : α → ι → Attempt π α} {inputs : List ι}
    (hstep : ∀ i ∈ inputs, ∀ a, post a → Outcome fail post (step a i)) :
    ∀ a, post a → Outcome fail post (inputs.foldlM step a) := by
  induction inputs with
  | nil => exact fun a ha ↦ ha
  | cons i inputs ih =>
    rw [List.forall_mem_cons] at hstep
    exact fun a ha ↦ (hstep.1 a ha).bind (ih hstep.2)

/-- What throws nothing but nontermination, and comes to an end, returns. -/
theorem Outcome.returns {x : Attempt π α} (hx : Outcome (· = .nontermination) post x)
    (hends : ∀ p, x ≠ .error (.nontermination, p)) : ∃ a, x = .ok a ∧ post a := by
  cases x with
  | error e =>
    obtain ⟨e, p⟩ := e
    obtain rfl : e = .nontermination := hx
    exact absurd rfl (hends p)
  | ok a => exact ⟨a, rfl, hx⟩

theorem Ends.ne_nontermination {x : Attempt π α} (hx : Ends post x) (p : π) :
    x ≠ .error (.nontermination, p) := by
  rintro rfl
  exact hx rfl

theorem matchRule_false {σ τ ρ ε : Type} [DecidableEq τ] {pattern : List τ}
    {execute : Parser σ τ ρ ε → Attempt (Parser σ τ ρ ε) (Parser σ τ ρ ε)} {p : Parser σ τ ρ ε}
    {entity : Entity τ} (h : (p.stack.take pattern.length).map Entity.token ≠ pattern.reverse) :
    matchRule pattern execute p entity = .ok (false, p) :=
  if_neg h

end Outcome

/-! ### Single turns -/

namespace Grammar

variable {σ τ ρ ε : Type} (g : Grammar σ τ ρ ε)

theorem processToken_of_none {p : Parser σ τ ρ ε} (h : p.lookahead = none) (token : τ)
    (value : EntityValue) :
    g.processToken p (some token) value =
      g.reduce { p with stack := ⟨token, value⟩ :: p.stack } := by
  rw [processToken, h]

/-- No rule applies. -/
theorem settle_of_none {p : Parser σ τ ρ ε} {entity : Entity τ} {rest : List (Entity τ)}
    (hp : p.stack = entity :: rest)
    (h : ∀ rule ∈ g.getRules p.state, rule p entity = .ok (false, p)) (n : ℕ) :
    g.settle (n + 1) p = .ok p := by
  have hrules : ∀ rules : List (Rule σ τ ρ ε), (∀ rule ∈ rules, rule p entity = .ok (false, p)) →
      applyRules rules p = .ok (false, p) := by
    intro rules hrules
    induction rules with
    | nil => rfl
    | cons rule rules ih =>
      rw [List.forall_mem_cons] at hrules
      rw [applyRules, hp]
      dsimp only
      rw [hrules.1]
      exact ih hrules.2
  rw [settle, hp]
  dsimp only
  rw [hrules _ h]
  rfl

/-- A rule that applies if it returns, after some that do not. -/
theorem settle_of_map {p : Parser σ τ ρ ε} {entity : Entity τ} {rest : List (Entity τ)}
    (hp : p.stack = entity :: rest) {before after : List (Rule σ τ ρ ε)} {rule : Rule σ τ ρ ε}
    (hrules : g.getRules p.state = before ++ rule :: after)
    (hbefore : ∀ rule ∈ before, rule p entity = .ok (false, p))
    {x : Attempt (Parser σ τ ρ ε) (Parser σ τ ρ ε)}
    (hrule : rule p entity = x.map fun p' ↦ (true, p')) (n : ℕ) :
    g.settle (n + 1) p = x >>= g.settle n := by
  have happly : applyRules (before ++ rule :: after) p = x.map fun p' ↦ (true, p') := by
    clear hrules
    induction before with
    | nil =>
      rw [List.nil_append, applyRules, hp]
      dsimp only
      rw [hrule]
      cases x <;> rfl
    | cons rule' before ih =>
      rw [List.forall_mem_cons] at hbefore
      rw [List.cons_append, applyRules, hp]
      dsimp only
      rw [hbefore.1]
      exact ih hbefore.2
  rw [settle, hp]
  dsimp only
  rw [hrules, happly]
  cases x <;> rfl

/-- A rule applies, after some that do not. -/
theorem settle_of_some {p p' : Parser σ τ ρ ε} {entity : Entity τ} {rest : List (Entity τ)}
    (hp : p.stack = entity :: rest) {before after : List (Rule σ τ ρ ε)} {rule : Rule σ τ ρ ε}
    (hrules : g.getRules p.state = before ++ rule :: after)
    (hbefore : ∀ rule ∈ before, rule p entity = .ok (false, p))
    (hrule : rule p entity = .ok (true, p')) (n : ℕ) :
    g.settle (n + 1) p = g.settle n p' :=
  g.settle_of_map hp hrules hbefore (x := .ok p') hrule n

end Grammar

/-! ### Termination -/

namespace Grammar

variable {σ τ ρ ε : Type} (g : Grammar σ τ ρ ε)

/-- The last token is text. -/
def TextOnTop (stack : List (Entity τ)) : Prop :=
  ∀ entity ∈ stack.head?, g.runs entity.token

/-- What a rule that applies does to a parser with `inv`: it makes the stack lighter, and after
text it leaves the state as it is, and text. -/
structure Lighter (inv : σ → List (Entity τ) → Prop) (weight : σ → List (Entity τ) → ℕ)
    (p p' : Parser σ τ ρ ε) : Prop where
  inv : inv p'.state p'.stack
  weight_lt : weight p'.state p'.stack < weight p.state p.stack
  state_eq : g.TextOnTop p.stack → p'.state = p.state
  text : g.TextOnTop p.stack → g.TextOnTop p'.stack

/-- What comes of a rule: it applies, or leaves the state and the stack as they are. -/
def Applied (inv : σ → List (Entity τ) → Prop) (weight : σ → List (Entity τ) → ℕ)
    (p : Parser σ τ ρ ε) (r : Bool × Parser σ τ ρ ε) : Prop :=
  if r.1 then g.Lighter inv weight p r.2 else r.2.state = p.state ∧ r.2.stack = p.stack

/-- A grammar whose rules come to an end. -/
structure Terminating (inv : σ → List (Entity τ) → Prop) (weight : σ → List (Entity τ) → ℕ) :
    Prop where
  weight_lt : ∀ p : Parser σ τ ρ ε, inv p.state p.stack → weight p.state p.stack < turns p
  start : ∀ p, inv (g.begin p).state (g.begin p).stack
  text_mem : ∀ state token, g.runs token → token ∈ g.getTokens state
  push : ∀ state stack token value, inv state stack → token ∈ g.getTokens state →
    inv state (⟨token, value⟩ :: stack)
  rule : ∀ (p : Parser σ τ ρ ε) entity rest, inv p.state p.stack → p.stack = entity :: rest →
    ∀ rule ∈ g.getRules p.state, Ends (g.Applied inv weight p) (rule p entity)
  lookahead : ∀ (p : Parser σ τ ρ ε) entity rest name, inv p.state p.stack →
    p.stack = entity :: rest → Ends (fun r : Bool × Parser σ τ ρ ε ↦
      inv r.2.state r.2.stack ∧ (g.runs entity.token →
        r.2.state = p.state ∧ (r.1 = false → g.TextOnTop r.2.stack))) (g.lookahead name p entity)

namespace Terminating

variable {g} {inv : σ → List (Entity τ) → Prop} {weight : σ → List (Entity τ) → ℕ}
  (h : g.Terminating inv weight)

include h

theorem applyRules (p : Parser σ τ ρ ε) (hinv : inv p.state p.stack) (hne : p.stack ≠ [])
    (rules : List (Rule σ τ ρ ε)) (hrules : ∀ rule ∈ rules, rule ∈ g.getRules p.state) :
    ∀ p₁, p₁.state = p.state → p₁.stack = p.stack →
      Ends (g.Applied inv weight p) (Grammar.applyRules rules p₁) := by
  induction rules with
  | nil => exact fun p₁ hstate hstack ↦ ⟨hstate, hstack⟩
  | cons rule rules ih =>
    intro p₁ hstate hstack
    obtain ⟨entity, rest, hp⟩ := List.exists_cons_of_ne_nil hne
    have hp₁ : p₁.stack = entity :: rest := hstack.trans hp
    have hinv₁ : inv p₁.state p₁.stack := by rwa [hstate, hstack]
    have hmem : rule ∈ g.getRules p₁.state := by
      rw [hstate]
      exact hrules rule List.mem_cons_self
    rw [Grammar.applyRules, hp₁]
    refine (h.rule p₁ entity rest hinv₁ hp₁ rule hmem).bind fun r hr ↦ ?_
    obtain ⟨applied, p₂⟩ := r
    cases applied with
    | true =>
      obtain ⟨hinv₂, hlt, hsame, htext⟩ := show g.Lighter inv weight p₁ p₂ from hr
      rw [hstate, hstack] at hlt
      rw [hstate, hstack] at hsame
      rw [hstack] at htext
      exact ⟨hinv₂, hlt, hsame, htext⟩
    | false =>
      obtain ⟨hstate₂, hstack₂⟩ := show p₂.state = p₁.state ∧ p₂.stack = p₁.stack from hr
      exact ih (fun r hr ↦ hrules r (List.mem_cons_of_mem _ hr)) p₂ (hstate₂.trans hstate)
        (hstack₂.trans hstack)

/-- The loop ends, since every turn makes the stack lighter. -/
theorem settle (n : ℕ) : ∀ p : Parser σ τ ρ ε, inv p.state p.stack → weight p.state p.stack < n →
    Ends (fun p' : Parser σ τ ρ ε ↦ inv p'.state p'.stack ∧
      (g.TextOnTop p.stack → p'.state = p.state))
      (g.settle n p) := by
  induction n with
  | zero => exact fun p _ hlt ↦ absurd hlt (Nat.not_lt_zero _)
  | succ n ih =>
    intro p hinv hlt
    rw [Grammar.settle]
    cases hp : p.stack with
    | nil => exact ⟨hinv, fun _ ↦ rfl⟩
    | cons entity rest =>
      have hne : p.stack ≠ [] := by simp [hp]
      refine (h.applyRules p hinv hne _ (fun _ hr ↦ hr) p rfl rfl).bind fun r hr ↦ ?_
      obtain ⟨applied, p'⟩ := r
      rw [← hp]
      cases applied with
      | true =>
        obtain ⟨hinv', hlt', hsame, htext⟩ := show g.Lighter inv weight p p' from hr
        exact (ih p' hinv' (by omega)).mono fun p'' hp'' ↦
          ⟨hp''.1, fun ht ↦ (hp''.2 (htext ht)).trans (hsame ht)⟩
      | false =>
        obtain ⟨hstate, hstack⟩ := show p'.state = p.state ∧ p'.stack = p.stack from hr
        refine ⟨?_, fun _ ↦ hstate⟩
        rwa [hstate, hstack]

theorem reduce (p : Parser σ τ ρ ε) (hinv : inv p.state p.stack) :
    Ends (fun p' : Parser σ τ ρ ε ↦ inv p'.state p'.stack ∧
      (g.TextOnTop p.stack → p'.state = p.state))
      (g.reduce p) :=
  h.settle _ p hinv (h.weight_lt p hinv)

/-- A token is processed, and text leaves the state as it is. -/
theorem processToken (p : Parser σ τ ρ ε) (hinv : inv p.state p.stack) {token : τ}
    (htoken : token ∈ g.getTokens p.state) (value : EntityValue) :
    Ends (fun p' : Parser σ τ ρ ε ↦ inv p'.state p'.stack ∧ (g.runs token → p'.state = p.state))
      (g.processToken p (some token) value) := by
  have hpush := h.push _ _ token value hinv htoken
  have htext : g.runs token → g.TextOnTop (⟨token, value⟩ :: p.stack) := by
    rintro hruns _ ⟨⟩
    exact hruns
  rw [Grammar.processToken]
  cases p.lookahead with
  | none =>
    exact (h.reduce _ hpush).mono fun p' hp' ↦ ⟨hp'.1, fun hruns ↦ hp'.2 (htext hruns)⟩
  | some name =>
    refine (h.lookahead { p with stack := ⟨token, value⟩ :: p.stack, lookahead := none } _ _
      name hpush
      rfl).bind fun r hr ↦ ?_
    obtain ⟨applied, p'⟩ := r
    cases applied with
    | true => exact ⟨hr.1, fun hruns ↦ (hr.2 hruns).1⟩
    | false =>
      exact (h.reduce p' hr.1).mono fun p'' hp'' ↦
        ⟨hp''.1, fun hruns ↦ (hp''.2 ((hr.2 hruns).2 rfl)).trans (hr.2 hruns).1⟩

/-- A buffer with bytes in it is one of text. -/
theorem flushTokens (s : Buffered σ τ ρ ε) (hinv : inv s.1.state s.1.stack)
    (hlast : s.2 ≠ [] → ∃ token, s.1.last = some token ∧ g.runs token) :
    Ends (fun s' : Buffered σ τ ρ ε ↦
      inv s'.1.state s'.1.stack ∧ s'.1.state = s.1.state ∧ s'.2 = []) (g.flushTokens s) := by
  rw [Grammar.flushTokens]
  cases hbuffer : s.2 with
  | nil => exact ⟨hinv, rfl, hbuffer⟩
  | cons b buffer =>
    obtain ⟨token, heq, hruns⟩ := hlast (by simp [hbuffer])
    rw [heq]
    refine (h.processToken s.1 hinv (h.text_mem _ token hruns) _).bind fun p hp ↦ ?_
    exact ⟨hp.1, hp.2 hruns, rfl⟩

theorem flushIf (c : Prop) [Decidable c] (s : Buffered σ τ ρ ε) (hinv : inv s.1.state s.1.stack ∧
      (s.2 ≠ [] → ∃ token, s.1.last = some token ∧ g.runs token)) :
    Ends (fun s' : Buffered σ τ ρ ε ↦ inv s'.1.state s'.1.stack ∧
      (s'.2 ≠ [] → ∃ token, s'.1.last = some token ∧ g.runs token)) (g.flushIf c s) := by
  rw [Grammar.flushIf]
  split
  · exact (h.flushTokens s hinv.1 hinv.2).mono fun s' hs' ↦ ⟨hs'.1, fun hne ↦ absurd hs'.2.2 hne⟩
  · exact hinv

variable [DecidableEq τ]

theorem processByte (s : Buffered σ τ ρ ε) (b : UInt8) (hinv : inv s.1.state s.1.stack ∧
      (s.2 ≠ [] → ∃ token, s.1.last = some token ∧ g.runs token)) :
    Ends (fun s' : Buffered σ τ ρ ε ↦ inv s'.1.state s'.1.stack ∧
      (s'.2 ≠ [] → ∃ token, s'.1.last = some token ∧ g.runs token)) (g.processByte s b) := by
  rw [Grammar.processByte]
  cases htoken : (g.getTokens s.1.state).find? (g.matchesByte · b) with
  | none => exact fun he ↦ nomatch he
  | some token =>
    have hmem := List.mem_of_find?_eq_some htoken
    dsimp only
    split
    · next hruns =>
      refine (h.flushIf _ s hinv).bind fun s₁ hs₁ ↦ (h.flushIf _ s₁ hs₁).bind fun s₂ hs₂ ↦ ?_
      exact ⟨hs₂.1, fun _ ↦ ⟨token, rfl, hruns⟩⟩
    · refine (h.flushTokens s hinv.1 hinv.2).bind fun s₁ hs₁ ↦ ?_
      refine (h.processToken s₁.1 hs₁.1 (by rwa [hs₁.2.1]) _).bind fun p hp ↦ ?_
      exact ⟨hp.1, fun hne ↦ absurd hs₁.2.2 hne⟩

/-- Parsing comes to an end. -/
theorem parse (p : Parser σ τ ρ ε) (str : List Char) (p' : Parser σ τ ρ ε) :
    g.parse p str ≠ .error (.nontermination, p') := by
  have hprocess : Ends _ (g.process (g.begin p, []) (utf8 str)) :=
    Outcome.foldlM (fun b _ s hs ↦ h.processByte s b hs) (g.begin p, [])
      ⟨h.start p, fun hne ↦ absurd rfl hne⟩
  have hparse : Ends (fun _ : Parser σ τ ρ ε ↦ True) (g.parse p str) := by
    refine hprocess.bind fun s hs ↦ ?_
    exact (h.flushTokens s hs.1 hs.2).bind fun _ _ ↦ trivial
  exact hparse.ne_nontermination p'

end Terminating

end Grammar

end JPype.Html
