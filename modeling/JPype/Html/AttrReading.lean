import JPype.Html.AttrGrammar
import JPype.Html.Blocks

/-!
# Reading attributes

What the grammar of attributes does with a name, with the sign after it and with a value in quotes,
said of the attributes that are delivered in the end (`Reaches`). Since none is taken back, an
attribute that is delivered is the next one of these (`reaches_addAttribute`).

A name that does not fit into a block is delivered in part, as a boolean attribute; the parts of
such a value come in the wrong order (`not_reaches_texts`).
-/

namespace JPype.Html

open Unicode

namespace AttrGrammar

/-! ### Tokens -/

/-- A text, as a token. -/
abbrev textEntity (s : List Char) : Entity Token :=
  ⟨.text, .string s⟩

variable (doc : Document) {last : Option Token} {stack : List (Entity Token)}
  {out : List (List Char × List Char)} {s n : List Char}

theorem feedBlock_nil (block : List UInt8) :
    (attrGrammar doc).feedBlock .text ⟨.free, last, none, [], out⟩ block =
      .ok ⟨.free, last, none, [textEntity (decodeUtf8 block)], out⟩ := by
  rfl

theorem feedBlock_text (block : List UInt8) :
    (attrGrammar doc).feedBlock .text ⟨.free, last, none, [textEntity n], out⟩ block =
      addAttribute doc ⟨.free, last, none, [textEntity (decodeUtf8 block)], out⟩ n n := by
  let p : AttrParser := ⟨.free, last, none, [textEntity (decodeUtf8 block), textEntity n], out⟩
  have hrules : (attrGrammar doc).getRules p.state = [attrRule doc] ++ boolRule doc ::
      [ignoreWS, quoteRule] := rfl
  have hattr : ∀ rule ∈ [attrRule doc],
      rule p (textEntity (decodeUtf8 block)) = .ok (false, p) := by
    simp only [List.forall_mem_cons]
    exact ⟨matchRule_false (by simp [p]), fun _ h ↦ nomatch h⟩
  refine ((attrGrammar doc).settle_of_map (p := p) rfl hrules hattr rfl 7).trans ?_
  show addAttribute doc _ n n >>= _ = _
  rw [addAttribute]
  split <;> rfl

/-- A value after a name and the sign. -/
theorem settle_eq (c : List Char) (k : ℕ) :
    (attrGrammar doc).settle (k + 2)
        ⟨.free, last, none, [textEntity c, ⟨.eq, .null⟩, textEntity n], out⟩ =
      addAttribute doc ⟨.free, last, none, [], out⟩ n c := by
  let p : AttrParser := ⟨.free, last, none, [textEntity c, ⟨.eq, .null⟩, textEntity n], out⟩
  have hrules : (attrGrammar doc).getRules p.state = [] ++ attrRule doc ::
      [boolRule doc, ignoreWS, quoteRule] := rfl
  refine ((attrGrammar doc).settle_of_map (p := p) rfl hrules (fun _ h ↦ nomatch h) rfl _).trans ?_
  show addAttribute doc _ n _ >>= _ = _
  rw [addAttribute]
  split <;> rfl

theorem feedBlock_eq (block : List UInt8) :
    (attrGrammar doc).feedBlock .text ⟨.free, last, none, [⟨.eq, .null⟩, textEntity n], out⟩ block =
      addAttribute doc ⟨.free, last, none, [], out⟩ n (decodeUtf8 block) :=
  settle_eq doc (decodeUtf8 block) 9

/-- The stacks on which a name comes. -/
def BeforeName (stack : List (Entity Token)) : Prop :=
  stack = [] ∨ (∃ n, stack = [textEntity n]) ∨ ∃ n, stack = [⟨.eq, .null⟩, textEntity n]

/-- White space is ignored. -/
theorem processToken_whitespace (h : BeforeName stack) :
    (attrGrammar doc).processToken ⟨.free, last, none, stack, out⟩ (some .whitespace) .null =
      .ok ⟨.free, last, none, stack, out⟩ := by
  obtain rfl | ⟨n, rfl⟩ | ⟨n, rfl⟩ := h <;> rfl

/-- The token of a quote. -/
def quoteToken : Quote → Token
  | .double => .quote
  | .single => .squote

/-- The state in which a value is read. -/
def quoteState : Quote → State
  | .double => .inQuote
  | .single => .inSquote

theorem processToken_quote (q : Quote) :
    (attrGrammar doc).processToken ⟨.free, last, none, [⟨.eq, .null⟩, textEntity n], out⟩
        (some (quoteToken q)) .null =
      .ok ⟨quoteState q, last, none, [⟨.eq, .null⟩, textEntity n], out⟩ := by
  cases q <;> rfl

theorem feedBlock_quoted (q : Quote) (block : List UInt8) :
    (attrGrammar doc).feedBlock .text ⟨quoteState q, last, none, stack, out⟩ block =
      .ok ⟨quoteState q, last, none, textEntity (decodeUtf8 block) :: stack, out⟩ := by
  let p : AttrParser := ⟨quoteState q, last, none, textEntity (decodeUtf8 block) :: stack, out⟩
  refine (attrGrammar doc).settle_of_none (p := p) rfl ?_ _
  have hrules : (attrGrammar doc).getRules p.state = [endRule] := by
    cases q <;> rfl
  rw [hrules, List.forall_mem_cons]
  refine ⟨?_, fun _ h ↦ nomatch h⟩
  rw [endRule, if_neg (by simp), if_neg (by simp)]

/-- The quote that ends a value. -/
theorem processToken_endQuote (q : Quote) :
    (attrGrammar doc).processToken ⟨quoteState q, last, none, stack, out⟩
        (some (quoteToken q)) .null =
      (attrGrammar doc).settle (3 * stack.length + 4) ⟨.free, last, none, stack, out⟩ := by
  let p : AttrParser := ⟨quoteState q, last, none, ⟨quoteToken q, .null⟩ :: stack, out⟩
  have hrules : (attrGrammar doc).getRules p.state = [] ++ endRule :: [] := by
    cases q <;> rfl
  have hrule : endRule p ⟨quoteToken q, .null⟩ = .ok (true, ⟨.free, last, none, stack, out⟩) := by
    cases q <;> rfl
  exact (attrGrammar doc).settle_of_some (p := p) rfl hrules (fun _ h ↦ nomatch h) hrule _

/-! ### What is delivered -/

variable {doc} {target more : List (List Char × List Char)} {pair : List Char × List Char}

/-- The attributes `target` have been delivered in the end. -/
def Reaches (target : List (List Char × List Char)) (x : Attempt AttrParser AttrParser) : Prop :=
  Returns (fun p ↦ p.delivered = target) x

/-- What is still to be done takes no attribute back. -/
def Extends (k : AttrParser → Attempt AttrParser AttrParser) : Prop :=
  ∀ p, Ends (fun p' ↦ p.delivered <+: p'.delivered) (k p)

theorem Extends.bind {k k' : AttrParser → Attempt AttrParser AttrParser} (h : Extends k)
    (h' : Extends k') : Extends fun p ↦ k p >>= k' :=
  fun p ↦ (h p).bind fun p₁ h₁ ↦ (h' p₁).mono fun _ h₂ ↦ h₁.trans h₂

/-- Where attributes have been delivered, they are the first ones. -/
theorem Reaches.of_ends {post : AttrParser → Prop} {x : Attempt AttrParser AttrParser}
    (h : Reaches target x) (hx : Ends post x) : ∃ p, post p ∧ p.delivered = target := by
  cases x with
  | error e => exact h.elim
  | ok p => exact ⟨p, hx, h⟩

theorem Reaches.of_bind {post : AttrParser → Prop} {x : Attempt AttrParser AttrParser}
    {k : AttrParser → Attempt AttrParser AttrParser} (h : Reaches target (x >>= k))
    (hx : Ends post x) : ∃ p, post p ∧ Reaches target (k p) := by
  cases x with
  | error e => exact h.elim
  | ok p => exact ⟨p, hx, h⟩

theorem Extends.prefix_of_reaches {k : AttrParser → Attempt AttrParser AttrParser} (hk : Extends k)
    {p : AttrParser} (h : Reaches target (k p)) : p.delivered <+: target := by
  obtain ⟨p', hprefix, rfl⟩ := h.of_ends (hk p)
  exact hprefix

/-- An attribute that is delivered is the next one of those that are to be. -/
theorem reaches_addAttribute {k : AttrParser → Attempt AttrParser AttrParser} (hk : Extends k)
    {p : AttrParser} {c : List Char} (hpair : doc.isXMLName pair.1)
    (htarget : target = p.delivered ++ pair :: more) :
    Reaches target (addAttribute doc p n c >>= k) ↔
      (n, c) = pair ∧ Reaches target (k { p with delivered := p.delivered ++ [pair] }) := by
  rw [addAttribute]
  split
  · show Reaches target (k { p with delivered := p.delivered ++ [(n, c)] }) ↔ _
    constructor
    · intro h
      have hprefix := hk.prefix_of_reaches h
      rw [htarget] at hprefix
      have hcons : [(n, c)] <+: pair :: more := (List.prefix_append_right_inj _).1 hprefix
      obtain rfl : (n, c) = pair := (List.cons_prefix_cons.1 hcons).1
      exact ⟨rfl, h⟩
    · rintro ⟨rfl, h⟩
      exact h
  · next hn =>
    refine ⟨fun h ↦ h.elim, ?_⟩
    rintro ⟨rfl, -⟩
    exact absurd hpair hn

/-! ### Runs of text -/

/-- What remains to be read. -/
def read (doc : Document) (p : AttrParser) (text : List Char) : Attempt AttrParser AttrParser :=
  (attrGrammar doc).process (p, []) (utf8 text) >>= (attrGrammar doc).flushTokens >>= fun s ↦
    .ok s.1

theorem extends_read (text : List Char) : Extends fun p ↦ read doc p text :=
  fun p ↦ ((ends_process doc (utf8 text) (p, [])).bind fun s h₁ ↦
    (ends_flushTokens doc s).mono fun _ h₂ ↦ h₁.trans h₂).bind fun _ h ↦ h

theorem extends_feedBlocks (blocks : List (List UInt8)) :
    Extends fun p ↦ blocks.foldlM ((attrGrammar doc).feedBlock .text) p := by
  refine fun p ↦ Outcome.foldlM (fun block _ p₁ h₁ ↦ ?_) p List.prefix_rfl
  exact (ends_processToken doc p₁ _ _).mono fun _ h₂ ↦ h₁.trans h₂

/-- A text without white space, quotes and equals signs. -/
def IsWord (s : List Char) : Prop :=
  ∀ c ∈ s, 0x20 < c.toNat ∧ c ∉ ['"', '\'', '=']

/-- A byte of a text is not an ASCII character that the text does not have. -/
theorem ne_of_mem_utf8 {c : Char} (hc : c.toNat < 0x80) (hs : c ∉ s) {b : UInt8} (hb : b ∈ utf8 s) :
    b ≠ UInt8.ofNat c.toNat := by
  rintro rfl
  exact hs ((mem_utf8_ascii hc).1 hb)

theorem find_word (hs : IsWord s) :
    ∀ b ∈ utf8 s, (getTokens .free).find? (Token.matchesByte · b) = some .text := by
  intro b hb
  have hquote : b ≠ 0x22 := ne_of_mem_utf8 (c := '"') (by decide) (fun h ↦ (hs _ h).2 (by simp)) hb
  have hsquote : b ≠ 0x27 := ne_of_mem_utf8 (c := '\'') (by decide)
      (fun h ↦ (hs _ h).2 (by simp)) hb
  have heq : b ≠ 0x3D := ne_of_mem_utf8 (c := '=') (by decide) (fun h ↦ (hs _ h).2 (by simp)) hb
  have hspace : 0x20 < b.toNat := by
    rw [utf8, List.mem_flatMap] at hb
    obtain ⟨c, hc, hb⟩ := hb
    have hword := (hs c hc).1
    rw [← utf8Code_toNat] at hb
    obtain ⟨hlt, rfl⟩ | hle := mem_utf8Code (toNat_lt c) hb
    · rwa [toNat_ofNat_byte (by omega)]
    · omega
  have hwhitespace : isWhitespace b = false := by
    rw [isWhitespace, Bool.or_eq_false_iff, Bool.and_eq_false_iff, Bool.and_eq_false_iff]
    simp only [decide_eq_false_iff_not]
    omega
  simp [getTokens, Token.matchesByte, Token.value, hquote, hsquote, heq, hwhitespace]

theorem find_value {q : Quote} (hs : q.char ∉ s) :
    ∀ b ∈ utf8 s, (getTokens (quoteState q)).find? (Token.matchesByte · b) = some .text := by
  intro b hb
  cases q with
  | double =>
    have hquote : b ≠ 0x22 := ne_of_mem_utf8 (c := '"') (by decide) hs hb
    simp [quoteState, getTokens, Token.matchesByte, Token.value, hquote]
  | single =>
    have hquote : b ≠ 0x27 := ne_of_mem_utf8 (c := '\'') (by decide) hs hb
    simp [quoteState, getTokens, Token.matchesByte, Token.value, hquote]

theorem addAttribute_eq_ok {p p' : AttrParser} {c : List Char}
    (h : addAttribute doc p n c = .ok p') :
    p' = { p with delivered := p.delivered ++ [(n, c)] } := by
  rw [addAttribute] at h
  split at h
  · exact (Except.ok.inj h).symm
  · cases h

/-- A word, with its text. -/
theorem isRun_word (hs : IsWord s) : Grammar.IsRun (attrGrammar doc) .text .free
    (fun p ↦ p.last = some .text ∧ p.state = .free ∧ BeforeName p.stack) (utf8 s) := by
  refine ⟨rfl, find_word hs, fun p hp ↦ hp.2.1, fun p hp ↦ hp.1, ?_⟩
  rintro ⟨state, last, lookahead, stack, out⟩ p' block ⟨hlast, hstate, hstack⟩ hfeed
  obtain rfl : last = some .text := hlast
  obtain rfl : state = .free := hstate
  cases lookahead with
  | some name => exact nomatch name
  | none =>
    obtain rfl | ⟨n, rfl⟩ | ⟨n, rfl⟩ := show BeforeName stack from hstack
    · rw [feedBlock_nil] at hfeed
      obtain rfl := Except.ok.inj hfeed
      exact ⟨rfl, rfl, .inr (.inl ⟨_, rfl⟩)⟩
    · rw [feedBlock_text] at hfeed
      obtain rfl := addAttribute_eq_ok hfeed
      exact ⟨rfl, rfl, .inr (.inl ⟨_, rfl⟩)⟩
    · rw [feedBlock_eq] at hfeed
      obtain rfl := addAttribute_eq_ok hfeed
      exact ⟨rfl, rfl, .inl rfl⟩

theorem isRun_value {q : Quote} (hs : q.char ∉ s) :
    Grammar.IsRun (attrGrammar doc) .text (quoteState q)
    (fun p ↦ p.last = some .text ∧ p.state = quoteState q) (utf8 s) := by
  refine ⟨rfl, find_value hs, fun p hp ↦ hp.2, fun p hp ↦ hp.1, ?_⟩
  rintro ⟨state, last, lookahead, stack, out⟩ p' block ⟨hlast, hstate⟩ hfeed
  obtain rfl : last = some .text := hlast
  obtain rfl : state = quoteState q := hstate
  cases lookahead with
  | some name => exact nomatch name
  | none =>
    rw [feedBlock_quoted] at hfeed
    obtain rfl := Except.ok.inj hfeed
    exact ⟨rfl, rfl⟩

/-- A text up to the end. -/
theorem read_eq_feed {state : State} {keeps : AttrParser → Prop}
    (h : Grammar.IsRun (attrGrammar doc) .text state keeps (utf8 s)) {p : AttrParser}
    (hstate : p.state = state) (hp : keeps { p with last := some .text }) :
    read doc p s = (attrGrammar doc).feed .text p (utf8 s) := by
  rw [read, (Grammar.process_text h hstate hp).1]
  cases (attrGrammar doc).feed .text p (utf8 s) <;> rfl

/-- A text, and the token after it. -/
theorem read_append {state : State} {keeps : AttrParser → Prop}
    (h : Grammar.IsRun (attrGrammar doc) .text state keeps (utf8 s)) {p : AttrParser}
    (hstate : p.state = state) (hp : keeps { p with last := some .text }) {c : Char} {b : UInt8}
    (hc : String.utf8EncodeChar c = [b]) (token : Token)
    (hfind : (getTokens state).find? (Token.matchesByte · b) = some token)
    (htoken : token ≠ .text) (rest : List Char) :
    read doc p (s ++ c :: rest) = (do
      let p ← (attrGrammar doc).feed .text p (utf8 s)
      let p ← (attrGrammar doc).processToken p (some token) .null
      read doc { p with last := some token } rest) := by
  have hruns : (attrGrammar doc).runs token = false := beq_eq_false_iff_ne.2 htoken
  rw [read, utf8_append, utf8_cons, hc, List.singleton_append,
    Grammar.process_text_then h hstate hp hfind hruns]
  simp only [bind_assoc, read]

/-! ### Names -/

section Name

variable {name val : List Char} {filled : ℕ} {k : AttrParser → Attempt AttrParser AttrParser}

theorem replacement_not_mem (h : doc.isXMLName name) : replacement ∉ name :=
  fun hmem ↦ doc.not_isMark name h _ hmem (.inr (by decide))

theorem ne_nil_of_isXMLName (h : doc.isXMLName name) : name ≠ [] := by
  rintro rfl
  rw [doc.isXMLName_nil] at h
  cases h

theorem isWord_reread (h : doc.isXMLName name) : IsWord (reread filled name) := by
  intro c hc
  obtain hc | rfl := mem_reread hc
  · have hmark := doc.not_isMark name h c hc
    rw [IsMark, not_or] at hmark
    refine ⟨Nat.lt_of_not_le hmark.1, fun hquote ↦ hmark.2 ?_⟩
    have hquotes : ['"', '\'', '='] ⊆ ['!', '"', '&', '\'', '/', ';', '<', '=', '>',
        replacement] := by
      decide
    exact hquotes hquote
  · decide

/-- A name is read as it is if it is not torn. -/
theorem reread_eq_iff (h : doc.isXMLName name) :
    reread filled name = name ↔ Unsplit filled name := by
  refine ⟨fun heq ↦ ?_, reread_of_unsplit⟩
  by_contra hsplit
  have hmem := replacement_mem_reread hsplit
  rw [heq] at hmem
  exact replacement_not_mem h hmem

/-- What a name is torn to is no name. -/
theorem reread_of_isXMLName (h : doc.isXMLName (reread filled name)) :
    reread filled name = name := by
  by_contra hne
  exact replacement_not_mem h
    (replacement_mem_reread fun hunsplit ↦ hne (reread_of_unsplit hunsplit))

/-- The blocks of a name after the first one. -/
theorem reaches_rest (hname : doc.isXMLName name) (hk : Extends k) {block : List UInt8}
    {rest : List (List UInt8)} (hblocks : blocks (utf8 (reread filled name)) = block :: rest)
    (htarget : target = out ++ (name, val) :: more) :
    Reaches target (rest.foldlM ((attrGrammar doc).feedBlock .text)
        ⟨.free, last, none, [textEntity (decodeUtf8 block)], out⟩ >>= k) ↔
      (utf8 (reread filled name)).length ≤ Grammar.capacity ∧
        Reaches target (k ⟨.free, last, none, [textEntity (reread filled name)], out⟩) := by
  obtain ⟨block', rest', hblocks', -, hle, hlt⟩ :=
    exists_blocks filled (replacement_not_mem hname) (ne_nil_of_isXMLName hname)
  rw [hblocks] at hblocks'
  obtain ⟨rfl, rfl⟩ := List.cons.inj hblocks'
  obtain hlong | hfits := Nat.lt_or_ge Grammar.capacity (utf8 (reread filled name)).length
  · obtain ⟨hne, htext⟩ := hlt hlong
    obtain ⟨block₂, rest, rfl⟩ := List.exists_cons_of_ne_nil hne
    refine ⟨fun h ↦ ?_, fun h ↦ absurd h.1 (Nat.not_le_of_lt hlong)⟩
    -- the first block is taken for a boolean attribute
    rw [List.foldlM_cons, bind_assoc, feedBlock_text,
      reaches_addAttribute ((extends_feedBlocks rest).bind hk) hname htarget] at h
    exact absurd (congrArg Prod.fst h.1) htext
  · obtain ⟨rfl, htext⟩ := hle hfits
    rw [htext]
    exact ⟨fun h ↦ ⟨hfits, h⟩, fun h ↦ h.2⟩

theorem feed_eq {p : AttrParser} {block : List UInt8} {rest : List (List UInt8)}
    (hblocks : blocks (utf8 s) = block :: rest) :
    (attrGrammar doc).feed .text p (utf8 s) =
      (attrGrammar doc).feedBlock .text { p with last := some .text } block >>= fun p ↦
        rest.foldlM ((attrGrammar doc).feedBlock .text) p := by
  have hne : utf8 s ≠ [] := by
    intro hnil
    rw [hnil] at hblocks
    cases hblocks
  rw [Grammar.feed, hblocks, if_neg hne, List.foldlM_cons]

/-- A name on an empty stack. -/
theorem reaches_feed_nil (hname : doc.isXMLName name) (hk : Extends k)
    (htarget : target = out ++ (name, val) :: more) :
    Reaches target ((attrGrammar doc).feed .text ⟨.free, last, none, [], out⟩
        (utf8 (reread filled name)) >>= k) ↔
      (utf8 (reread filled name)).length ≤ Grammar.capacity ∧
        Reaches target (k ⟨.free, some .text, none, [textEntity (reread filled name)], out⟩) := by
  obtain ⟨block, rest, hblocks, -⟩ :=
    exists_blocks filled (replacement_not_mem hname) (ne_nil_of_isXMLName hname)
  rw [← reaches_rest hname hk hblocks htarget, feed_eq hblocks, feedBlock_nil]
  rfl

/-- A name after a boolean attribute, which is delivered. -/
theorem reaches_feed_text {m : List Char} (hm : doc.isXMLName m) (hname : doc.isXMLName name)
    (hk : Extends k) (htarget : target = out ++ (m, m) :: (name, val) :: more) :
    Reaches target ((attrGrammar doc).feed .text ⟨.free, last, none, [textEntity n], out⟩
        (utf8 (reread filled name)) >>= k) ↔
      n = m ∧ (utf8 (reread filled name)).length ≤ Grammar.capacity ∧
        Reaches target (k ⟨.free, some .text, none, [textEntity (reread filled name)],
          out ++ [(m, m)]⟩) := by
  obtain ⟨block, rest, hblocks, -⟩ :=
    exists_blocks filled (replacement_not_mem hname) (ne_nil_of_isXMLName hname)
  have htarget' : target = (out ++ [(m, m)]) ++ (name, val) :: more := by
    rw [htarget, List.append_assoc, List.singleton_append]
  rw [← reaches_rest hname hk hblocks htarget', feed_eq hblocks, bind_assoc, feedBlock_text,
    reaches_addAttribute ((extends_feedBlocks rest).bind hk) hm htarget]
  refine and_congr_left fun _ ↦ ?_
  rw [Prod.mk.injEq, and_self_iff]

/-- A name after the sign and no value. -/
theorem not_reaches_feed_eq {m : List Char} (hm : doc.isXMLName m) (hname : doc.isXMLName name)
    (hk : Extends k) (htarget : target = out ++ (m, []) :: more) :
    ¬Reaches target ((attrGrammar doc).feed .text
      ⟨.free, last, none, [⟨.eq, .null⟩, textEntity n], out⟩ (utf8 (reread filled name)) >>=
        k) := by
  obtain ⟨block, rest, hblocks, hne, -⟩ :=
    exists_blocks filled (replacement_not_mem hname) (ne_nil_of_isXMLName hname)
  rw [feed_eq hblocks, bind_assoc, feedBlock_eq,
    reaches_addAttribute ((extends_feedBlocks rest).bind hk) hm htarget]
  rintro ⟨heq, -⟩
  exact hne (congrArg Prod.snd heq)

end Name

/-! ### Values -/

theorem feedBlocks_quoted (q : Quote) (blocks : List (List UInt8)) : ∀ stack : List (Entity Token),
    blocks.foldlM ((attrGrammar doc).feedBlock .text) ⟨quoteState q, last, none, stack, out⟩ =
      .ok ⟨quoteState q, last, none,
        (blocks.map decodeUtf8).reverse.map textEntity ++ stack, out⟩ := by
  induction blocks with
  | nil => exact fun stack ↦ rfl
  | cons block blocks ih =>
    intro stack
    rw [List.foldlM_cons, feedBlock_quoted]
    refine (ih _).trans ?_
    simp

/-- Texts in quotes stay on the stack. -/
theorem feed_quoted {q : Quote} (hs : s ≠ []) :
    (attrGrammar doc).feed .text ⟨quoteState q, last, none, stack, out⟩ (utf8 s) =
      .ok ⟨quoteState q, some .text, none,
        ((blocks (utf8 s)).map decodeUtf8).reverse.map textEntity ++ stack, out⟩ := by
  have hne : utf8 s ≠ [] := fun hnil ↦ hs (utf8_injective hnil)
  rw [Grammar.feed, if_neg hne]
  exact feedBlocks_quoted q _ stack

/-- Of several texts after a name and the sign all but the last are taken for boolean attributes. -/
theorem ends_settle_texts (texts : List (List Char)) : ∀ (t : List Char) (k : ℕ)
    (out : List (List Char × List Char)),
    Ends (fun p' ↦ doc.isXMLName n ∧
        ∃ pairs, pairs.length = texts.length ∧ p'.delivered = out ++ (pairs ++ [(n, t)]))
      ((attrGrammar doc).settle (texts.length + k + 2) ⟨.free, last, none,
        textEntity t :: (texts.map textEntity ++ [⟨.eq, .null⟩, textEntity n]), out⟩) := by
  induction texts with
  | nil =>
    intro t k out
    show Ends _ ((attrGrammar doc).settle (0 + k + 2)
      ⟨.free, last, none, [textEntity t, ⟨.eq, .null⟩, textEntity n], out⟩)
    rw [settle_eq, addAttribute]
    split
    · next h => exact ⟨h, [], rfl, rfl⟩
    · intro h
      cases h
  | cons text texts ih =>
    intro t k out
    let p : AttrParser := ⟨.free, last, none, textEntity t ::
      ((text :: texts).map textEntity ++ [⟨.eq, .null⟩, textEntity n]), out⟩
    have hrules : (attrGrammar doc).getRules p.state = [attrRule doc] ++ boolRule doc ::
        [ignoreWS, quoteRule] := rfl
    have hattr : ∀ rule ∈ [attrRule doc], rule p (textEntity t) = .ok (false, p) := by
      simp only [List.forall_mem_cons]
      exact ⟨matchRule_false (by simp [p]), fun _ h ↦ absurd h List.not_mem_nil⟩
    have hsettle := (attrGrammar doc).settle_of_map (p := p) rfl hrules hattr rfl
      (texts.length + k + 2)
    rw [List.length_cons, show texts.length + 1 + k + 2 = texts.length + k + 2 + 1 by omega]
    show Ends _ ((attrGrammar doc).settle (texts.length + k + 2 + 1) p)
    rw [hsettle]
    show Ends _ (addAttribute doc _ text text >>= _)
    rw [addAttribute]
    split
    · refine (ih t k (out ++ [(text, text)])).mono fun p' hp' ↦ ?_
      obtain ⟨hn, pairs, hlength, hdelivered⟩ := hp'
      refine ⟨hn, (text, text) :: pairs, by rw [List.length_cons, hlength], ?_⟩
      rw [hdelivered]
      simp
    · intro h
      cases h

variable {name val : List Char}

theorem utf8EncodeChar_quote (q : Quote) : ∃ b, String.utf8EncodeChar q.char = [b] ∧
    (getTokens .free).find? (Token.matchesByte · b) = some (quoteToken q) ∧
    (getTokens (quoteState q)).find? (Token.matchesByte · b) = some (quoteToken q) := by
  cases q
  · exact ⟨0x22, rfl, rfl, rfl⟩
  · exact ⟨0x27, rfl, rfl, rfl⟩

/-- A value that does not fit into a block: its last part is delivered with the name, but comes
after the others. -/
theorem not_reaches_texts {text : List Char} {k : AttrParser → Attempt AttrParser AttrParser}
    (hlong : Grammar.capacity < (utf8 text).length) (hk : Extends k)
    (hn : doc.isXMLName n → n = name) (hmore : name ∉ more.map Prod.fst)
    (htarget : target = out ++ (name, val) :: more) :
    let stack := ((blocks (utf8 text)).map decodeUtf8).reverse.map textEntity ++
      [⟨.eq, .null⟩, textEntity n]
    ¬Reaches target
      ((attrGrammar doc).settle (3 * stack.length + 4) ⟨.free, last, none, stack, out⟩ >>= k) := by
  have hdrop : (utf8 text).drop Grammar.capacity ≠ [] := by
    refine List.ne_nil_of_length_pos ?_
    rw [List.length_drop]
    exact Nat.sub_pos_of_lt hlong
  obtain ⟨t, texts, htexts, hne⟩ : ∃ t texts,
      ((blocks (utf8 text)).map decodeUtf8).reverse = t :: texts ∧ texts ≠ [] := by
    obtain ⟨block, rest, hblocks⟩ := List.exists_cons_of_ne_nil (blocks_ne_nil hdrop)
    obtain ⟨t, texts, htexts⟩ := List.exists_cons_of_ne_nil
      (show ((block :: rest).map decodeUtf8).reverse ≠ [] by simp)
    refine ⟨t, texts ++ [decodeUtf8 ((utf8 text).take Grammar.capacity)], ?_, by simp⟩
    rw [blocks_of_lt hlong, hblocks, List.map_cons, List.reverse_cons, htexts]
    rfl
  intro stack h
  have hstack : stack = textEntity t :: (texts.map textEntity ++ [⟨.eq, .null⟩, textEntity n]) := by
    show _ ++ _ = _
    rw [htexts]
    rfl
  have hlength : 3 * stack.length + 4 = texts.length + (2 * texts.length + 11) + 2 := by
    rw [hstack]
    simp
    omega
  rw [hlength, hstack] at h
  obtain ⟨p, ⟨hname, pairs, hpairs, hdelivered⟩, h⟩ :=
    h.of_bind (ends_settle_texts texts t (2 * texts.length + 11) out)
  have hprefix := hk.prefix_of_reaches h
  rw [hdelivered, htarget] at hprefix
  replace hprefix := (List.prefix_append_right_inj _).1 hprefix
  have hpairs' : pairs ≠ [] := by
    rintro rfl
    exact hne (List.length_eq_zero_iff.1 hpairs.symm)
  obtain ⟨pair, pairs, rfl⟩ := List.exists_cons_of_ne_nil hpairs'
  have hmem : (n, t) ∈ more := (List.cons_prefix_cons.1 hprefix).2.subset (by simp)
  rw [hn hname] at hmem
  exact hmore (List.mem_map_of_mem hmem)

/-- A value in quotes is delivered with its name, if it fits into a block. -/
theorem reaches_value {q : Quote} {text rest : List Char} (hne : text ≠ []) (hq : q.char ∉ text)
    (hname : doc.isXMLName name) (hn : doc.isXMLName n → n = name)
    (hmore : name ∉ more.map Prod.fst) (htarget : target = out ++ (name, val) :: more) :
    Reaches target (read doc ⟨quoteState q, last, none, [⟨.eq, .null⟩, textEntity n], out⟩
        (text ++ q.char :: rest)) ↔
      (utf8 text).length ≤ Grammar.capacity ∧ (n, text) = (name, val) ∧
        Reaches target (read doc
          ⟨.free, some (quoteToken q), none, [], out ++ [(name, val)]⟩ rest) := by
  obtain ⟨b, hb, -, hfind⟩ := utf8EncodeChar_quote q
  have htoken : quoteToken q ≠ .text := by
    cases q <;> decide
  let k : AttrParser → Attempt AttrParser AttrParser :=
    fun p ↦ read doc { p with last := some (quoteToken q) } rest
  have hk : Extends k := fun p ↦ extends_read rest { p with last := some (quoteToken q) }
  have hutf8 : utf8 text ≠ [] := fun hnil ↦ hne (utf8_injective hnil)
  rw [read_append (isRun_value hq) rfl ⟨rfl, rfl⟩ hb _ hfind htoken, feed_quoted hne]
  show Reaches target ((attrGrammar doc).processToken _ _ _ >>= k) ↔ _
  rw [processToken_endQuote]
  obtain hlong | hfits := Nat.lt_or_ge Grammar.capacity (utf8 text).length
  · refine ⟨fun h ↦ ?_, fun h ↦ absurd h.1 (Nat.not_le_of_lt hlong)⟩
    exact absurd h (not_reaches_texts hlong hk hn hmore htarget)
  · rw [blocks_of_le hfits, if_neg hutf8]
    show Reaches target ((attrGrammar doc).settle 13 ⟨.free, _, none,
      [textEntity (decodeUtf8 (utf8 text)), ⟨.eq, .null⟩, textEntity n], out⟩ >>= k) ↔ _
    rw [settle_eq, decodeUtf8_encode, reaches_addAttribute hk hname htarget]
    exact ⟨fun h ↦ ⟨hfits, h⟩, fun h ↦ h.2⟩

/-- A token that comes after no text. -/
theorem read_token {p : AttrParser} {c : Char} {b : UInt8} (hc : String.utf8EncodeChar c = [b])
    (token : Token) (hfind : (getTokens p.state).find? (Token.matchesByte · b) = some token)
    (htoken : token ≠ .text) (rest : List Char) :
    read doc p (c :: rest) = (do
      let p ← (attrGrammar doc).processToken p (some token) .null
      read doc { p with last := some token } rest) := by
  have hruns : (attrGrammar doc).runs token = false := beq_eq_false_iff_ne.2 htoken
  rw [read, utf8_cons, hc, List.singleton_append, Grammar.process_token hfind hruns]
  simp only [bind_assoc, read]

/-- White space is ignored. -/
theorem read_space (h : BeforeName stack) (rest : List Char) :
    read doc ⟨.free, last, none, stack, out⟩ (' ' :: rest) =
      read doc ⟨.free, some .whitespace, none, stack, out⟩ rest := by
  rw [read_token (show String.utf8EncodeChar ' ' = [0x20] from rfl) .whitespace rfl (by decide),
    processToken_whitespace doc h]
  rfl

/-- What is done after a name, with the text `tail` after it. -/
def afterName (doc : Document) (tail : List Char) (p : AttrParser) :
    Attempt AttrParser AttrParser :=
  match tail with
  | [] => .ok p
  | c :: rest => do
    let token : Token := if c = '=' then .eq else .whitespace
    let p ← (attrGrammar doc).processToken p (some token) .null
    read doc { p with last := some token } rest

theorem extends_afterName (tail : List Char) : Extends (afterName doc tail) := by
  intro p
  cases tail with
  | nil => exact List.prefix_rfl
  | cons c rest =>
    exact (ends_processToken doc p _ _).bind fun p₁ h₁ ↦
      (extends_read rest _).mono fun _ h₂ ↦ h₁.trans h₂

theorem read_name (h : BeforeName stack) (hs : IsWord s) {tail : List Char}
    (htail : ∀ c ∈ tail.head?, c = ' ' ∨ c = '=') :
    read doc ⟨.free, last, none, stack, out⟩ (s ++ tail) =
      (attrGrammar doc).feed .text ⟨.free, last, none, stack, out⟩ (utf8 s) >>=
        afterName doc tail := by
  cases tail with
  | nil =>
    rw [List.append_nil, read_eq_feed (isRun_word hs) rfl ⟨rfl, rfl, h⟩]
    exact (bind_pure _).symm
  | cons c rest =>
    obtain rfl | rfl := htail c rfl
    · exact read_append (isRun_word hs) rfl ⟨rfl, rfl, h⟩ (b := 0x20) rfl .whitespace rfl
        (by decide) rest
    · exact read_append (isRun_word hs) rfl ⟨rfl, rfl, h⟩ (b := 0x3D) rfl .eq rfl (by decide) rest

theorem afterName_space (rest : List Char) :
    afterName doc (' ' :: rest) ⟨.free, last, none, [textEntity n], out⟩ =
      read doc ⟨.free, some .whitespace, none, [textEntity n], out⟩ rest :=
  rfl

/-- The sign after a name, and the quote that begins the value. -/
theorem afterName_eq (q : Quote) (rest : List Char) :
    afterName doc ('=' :: q.char :: rest) ⟨.free, last, none, [textEntity n], out⟩ =
      read doc ⟨quoteState q, some (quoteToken q), none, [⟨.eq, .null⟩, textEntity n], out⟩
        rest := by
  obtain ⟨b, hb, hfind, -⟩ := utf8EncodeChar_quote q
  have htoken : quoteToken q ≠ .text := by
    cases q <;> decide
  show read doc ⟨.free, some .eq, none, [⟨.eq, .null⟩, textEntity n], out⟩ _ = _
  rw [read_token hb _ hfind htoken, processToken_quote]
  rfl

end AttrGrammar

end JPype.Html
