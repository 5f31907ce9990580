import JPype.Html.Markup
import JPype.Html.Writer
import Mathlib.Data.List.Chain

/-!
# Reading what has been written

What `HtmlWriter` writes of a tree, `HtmlParser` reads as the same tree (`parseTree_write`), if all
that is in it survives by itself: the names and the attributes of the elements, texts that are not
empty and do not follow each other, comments and sections that do not end early, directives without
marks; and if no element is closed by one that is below it (`Readable`).

A tree is read node by node (`Readable.reads`): wherever the parser is between tags, with the
handler in an element, it reads the node and is in the element again.
-/

namespace JPype.Html

open Unicode HtmlGrammar HtmlWriter
open Grammar (AfterText Buffered)

/-! ### The nodes of a tree -/

namespace DomTree

def isElement : DomTree → Bool
  | .element .. => true
  | _ => false

def isText : DomTree → Bool
  | .text _ => true
  | _ => false

mutual

/-- The nodes of a tree, as the handler has them: `index` of them come before, and the tree is below
`parent`. -/
def nodes (loc : Locale) (parent : Option (Element loc)) (index : ℕ) :
    DomTree → List (Option (Element loc) × Node loc)
  | .element name attributes children =>
    let e : Element loc := ⟨index, loc.normalize name, attributes, loc.normalize_normalize name⟩
    (parent, .element e) :: nodesBelow loc e (index + 1) children
  | .text data => [(parent, .text data)]
  | .comment data => [(parent, .comment data)]
  | .cdataSection data => [(parent, .cdataSection data)]
  | .processingInstruction target data => [(parent, .processingInstruction target data)]

/-- The nodes below an element. -/
def nodesBelow (loc : Locale) (e : Element loc) (index : ℕ) :
    List DomTree → List (Option (Element loc) × Node loc)
  | [] => []
  | child :: children =>
    let first := nodes loc (some e) index child
    first ++ nodesBelow loc e (index + first.length) children

end

end DomTree

/-- A node below an element of the name `parent`, or at the root where that is empty, that survives
being written and read. -/
inductive Readable (doc : Document) (loc : Locale) : List Char → DomTree → Prop
  /-- The tag survives, and does not close the parent; a void element has no children, and no two
  texts follow each other. -/
  | element {parent : List Char} (t : StartTag doc) {children : List DomTree}
      (normalize_element : loc.normalize t.element = t.element)
      (unsplit : Unsplit 0 t.element)
      (double : ∀ a ∈ t.attributes, ∃ v, a.value = some (.double, v))
      (survives : Survives (stop (filledBy 0 t.element) ' ') t.attributes)
      (not_closes : ¬(t.element ∈ optionalElements ∧
        parent ++ ':' :: t.element ∈ optionalClose))
      (void : t.element ∈ voidElements → children = [])
      (apart : children.IsChain fun a b ↦ ¬(a.isText ∧ b.isText))
      (below : ∀ child ∈ children, Readable doc loc t.element child) :
      Readable doc loc parent (.element t.element (t.attributes.map Attribute.pair) children)
  | text {parent data : List Char} (ne_nil : data ≠ []) (not_lt : '<' ∉ data)
      (unsplit : Grammar.UnsplitRuns (markOf .free) 0 data) : Readable doc loc parent (.text data)
  | comment {parent data : List Char} (fits : Section.comment.Fits data) :
      Readable doc loc parent (.comment data)
  | cdataSection {parent data : List Char} (fits : Section.cdata.Fits data) :
      Readable doc loc parent (.cdataSection data)
  | processingInstruction {parent target data : List Char} (isXMLName_target : doc.isXMLName target)
      (trim_data : trim data = data)
      (no_marks : ∀ c ∈ target ++ ' ' :: data, markOf .directive c = none)
      (unsplit : Unsplit 0 (target ++ ' ' :: data)) :
      Readable doc loc parent (.processingInstruction target data)

/-! ### What the handler does -/

namespace HtmlTreeHandler

variable {doc : Document} {loc : Locale} {h : HtmlTreeHandler loc}

theorem foldl_setAttributeNode (pairs : List (List Char × List Char)) :
    ∀ attributes : List (List Char × List Char), ((attributes ++ pairs).map Prod.fst).Nodup →
      pairs.foldl setAttributeNode attributes = attributes ++ pairs := by
  induction pairs with
  | nil => exact fun attributes _ ↦ (List.append_nil _).symm
  | cons a pairs ih =>
    intro attributes hnodup
    have hnot : a.1 ∉ attributes.map Prod.fst := by
      rw [List.map_append, List.map_cons] at hnodup
      exact fun hmem ↦ (List.nodup_append.1 hnodup).2.2 _ hmem _ List.mem_cons_self rfl
    rw [List.foldl_cons, setAttributeNode, if_neg hnot, ih _ (by simpa using hnodup)]
    simp

/-- An element starts that does not close the one it is in. -/
theorem startElement_eq {name : List Char} {attr : Option (List Char)}
    {pairs : List (List Char × List Char)} {attrParser : AttrGrammar.AttrParser}
    (hname : loc.normalize name = name) (hxml : doc.isXMLName name)
    (hopen : ¬(name ∈ optionalElements ∧ h.lastNodeName ++ ':' :: name ∈ optionalClose))
    (hattr : h.parseAttributes doc attr = .ok (pairs, { h with attrParser }))
    (hnodup : (pairs.map Prod.fst).Nodup) (hroot : h.elementStack ≠ [] ∨ h.nodes = []) :
    h.startElement doc name attr =
      let e : Element loc :=
        ⟨h.nodes.length, loc.normalize name, pairs, loc.normalize_normalize name⟩
      .ok { h with
        attrParser := attrParser
        nodes := h.nodes ++ [(h.current, .element e)]
        elementStack := if name ∈ voidElements then h.elementStack else e :: h.elementStack } := by
  have hclose : h.autoClose (loc.normalize name) (h.elementStack.length + 1) = .ok h := by
    rw [autoClose, if_neg (by rwa [hname])]
  have haccepts : ∀ e, accepts { h with attrParser } (.element e) = true := by
    intro e
    obtain hstack | hnodes := hroot
    · obtain ⟨last, rest, hlast⟩ := List.exists_cons_of_ne_nil hstack
      simp [accepts, current, hlast]
    · simp [accepts, hnodes]
  rw [startElement, hclose]
  dsimp only [bind, Except.bind]
  rw [if_neg (by simp [hname, hxml]), hattr]
  dsimp only
  rw [foldl_setAttributeNode _ [] (by simpa using hnodup), appendChild, if_pos (haccepts _)]
  dsimp only
  rw [List.nil_append]
  by_cases hvoid : name ∈ voidElements
  · rw [if_pos (by rwa [hname]), if_pos hvoid]
    rfl
  · rw [if_neg (by rwa [hname]), if_neg hvoid]
    rfl

/-- The element on top is closed. -/
theorem endElement_top {e : Element loc} {rest : List (Element loc)}
    (hstack : h.elementStack = e :: rest) :
    h.endElement e.nodeName = .ok { h with elementStack := rest } :=
  endWithin_top hstack _

end HtmlTreeHandler

/-! ### Tags -/

namespace StartTag

variable {doc : Document} {loc : Locale} (t : StartTag doc)

/-- The attributes of a tag, as they are told. -/
def attrText : Option (List Char) :=
  match t.attributes with
  | [] => none
  | a :: as => some (body (stop (filledBy 0 t.element) ' ') (a :: as))

variable {t}

theorem lt_toNat {name : List Char} (h : doc.isXMLName name) : ∀ c ∈ name, 0x20 < c.toNat :=
  fun c hc ↦ Nat.lt_of_not_le fun hle ↦ doc.not_isMark name h c hc (.inl hle)

theorem ne_space {name : List Char} (h : doc.isXMLName name) :
    ∀ c ∈ name, decide (c ≠ ' ') = true := by
  intro c hc
  have hlt := lt_toNat h c hc
  rw [decide_eq_true_iff]
  rintro rfl
  exact absurd hlt (by decide)

theorem tagContent_eq_attrText (hunsplit : Unsplit 0 t.element) :
    tagContent t.element t.attributes = t.element ++ t.attrText.elim [] (' ' :: ·) := by
  rw [tagContent_eq, reread_of_unsplit hunsplit, attrText]
  cases t.attributes <;> rfl

/-- What is told of the tag of an element. -/
theorem splitSpace_tagContent (hunsplit : Unsplit 0 t.element) :
    splitSpace (tagContent t.element t.attributes) = (t.element, t.attrText) := by
  have hspace : ∀ c ∈ t.element, isSpace c = false :=
    fun c hc ↦ isSpace_eq_false (lt_toNat t.isXMLName_element c hc)
  rw [tagContent_eq_attrText hunsplit, attrText]
  cases t.attributes with
  | nil =>
    dsimp only [Option.elim]
    rw [List.append_nil, splitSpace_of_not_isSpace hspace]
  | cons a as => exact splitSpace_append hspace (head_body _ a as)

/-- The attributes end in a quote. -/
theorem body_eq_concat (as : List (Attribute doc)) (hne : as ≠ [])
    (hdouble : ∀ a ∈ as, ∃ v, a.value = some (.double, v)) :
    ∀ filled, ∃ s, body filled as = s ++ ['"'] := by
  induction as with
  | nil => exact absurd rfl hne
  | cons a as ih =>
    intro filled
    obtain ⟨⟨v, hv⟩, hdouble⟩ := List.forall_mem_cons.1 hdouble
    rw [body, hv, valueText]
    cases as with
    | nil =>
      refine ⟨reread filled a.name ++ '=' :: Quote.double.char :: reread 0 v, ?_⟩
      simp [spaced]
    | cons a' as =>
      obtain ⟨s, hs⟩ := ih (List.cons_ne_nil _ _) hdouble 1
      refine ⟨reread filled a.name ++ '=' :: Quote.double.char ::
        (reread 0 v ++ '"' :: ' ' :: s), ?_⟩
      simp [spaced, hs]

theorem not_le_of_lt_toNat {c : Char} (h : 0x20 < c.toNat) : ¬c ≤ ' ' :=
  fun hle ↦ absurd (UInt32.le_iff_toNat_le.1 hle) (Nat.not_le_of_lt h)

/-- White space before a text that neither begins nor ends with some is trimmed away. -/
theorem trim_space_cons {s : List Char} (hhead : ∀ c ∈ s.head?, ¬c ≤ ' ')
    (hlast : ∀ c ∈ s.getLast?, ¬c ≤ ' ') : trim (' ' :: s) = s := by
  have hdrop : ∀ l : List Char, (∀ c ∈ l.head?, ¬c ≤ ' ') → l.dropWhile (· ≤ ' ') = l := by
    intro l hl
    cases l with
    | nil => rfl
    | cons c l => rw [List.dropWhile_cons_of_neg (by simpa using hl c rfl)]
  rw [trim, List.dropWhile_cons_of_pos (by decide), hdrop s hhead, hdrop, List.reverse_reverse]
  rwa [List.head?_reverse]

theorem trim_body (a : Attribute doc) (as : List (Attribute doc))
    (hdouble : ∀ a' ∈ a :: as, ∃ v, a'.value = some (.double, v)) (filled : ℕ) :
    trim (' ' :: body filled (a :: as)) = body filled (a :: as) := by
  refine trim_space_cons (fun c hc ↦ ?_) fun c hc ↦ ?_
  · have hne : reread filled a.name ≠ [] :=
      reread_ne_nil (AttrGrammar.ne_nil_of_isXMLName a.isXMLName_name)
    rw [body, List.head?_append_of_ne_nil _ hne] at hc
    exact not_le_of_lt_toNat
      (AttrGrammar.isWord_reread a.isXMLName_name c (List.mem_of_mem_head? hc)).1
  · obtain ⟨s, hs⟩ := body_eq_concat _ (List.cons_ne_nil a as) hdouble filled
    rw [hs, List.getLast?_concat] at hc
    obtain rfl := Option.some.inj hc
    decide

/-- What is told of the tag of an element that is complete. -/
theorem completed_tagContent (hunsplit : Unsplit 0 t.element)
    (hdouble : ∀ a ∈ t.attributes, ∃ v, a.value = some (.double, v)) :
    completed (tagContent t.element t.attributes) =
      [.startElement t.element t.attrText, .endElement t.element] := by
  have hspace := ne_space t.isXMLName_element
  rw [completed, tagContent_eq_attrText hunsplit, attrText]
  cases hattributes : t.attributes with
  | nil =>
    dsimp only [Option.elim]
    rw [List.append_nil, List.dropWhile_eq_nil_iff.2 hspace]
  | cons a as =>
    dsimp only [Option.elim]
    rw [hattributes] at hdouble
    rw [List.dropWhile_append_of_pos hspace, List.takeWhile_append_of_pos hspace,
      List.dropWhile_cons_of_neg (by decide), List.takeWhile_cons_of_neg (by decide),
      List.append_nil]
    dsimp only
    rw [trim_body a as hdouble]

/-- The attributes that survive are read as they are. -/
theorem parseAttributes_attrText
    (hsurvives : Survives (stop (filledBy 0 t.element) ' ') t.attributes)
    (h : HtmlTreeHandler loc) : ∃ attrParser, h.parseAttributes doc t.attrText =
      .ok (t.attributes.map Attribute.pair, { h with attrParser }) := by
  rw [attrText]
  cases hattributes : t.attributes with
  | nil => exact ⟨h.attrParser, rfl⟩
  | cons a as =>
    have hnodup := t.nodup
    rw [hattributes] at hnodup hsurvives
    have hreads := ((AttrGrammar.readsBack (a :: as) hnodup _).alone h.attrParser.last [] rfl).2
      hsurvives
    have hparse : ∀ attr, (attrGrammar doc).parse h.attrParser attr =
        AttrGrammar.read doc ⟨.free, h.attrParser.last, none, [], []⟩ attr := by
      intro attr
      have hlookahead : h.attrParser.lookahead = none :=
        Option.eq_none_iff_forall_not_mem.2 fun name _ ↦ name.elim
      rw [AttrGrammar.read, bind_assoc, ← hlookahead]
      rfl
    rw [HtmlTreeHandler.parseAttributes, hparse]
    revert hreads
    cases AttrGrammar.read doc ⟨.free, h.attrParser.last, none, [], []⟩ _ with
    | error e => exact fun hreads ↦ hreads.elim
    | ok p =>
      intro hreads
      replace hreads : p.delivered = (a :: as).map Attribute.pair := hreads
      refine ⟨p, ?_⟩
      rw [← hreads]

end StartTag

/-! ### Places -/

section Place

variable {doc : Document} {loc : Locale} {stack stack' : List (Element loc)}
  {nodes nodes' : List (Option (Element loc) × Node loc)} {w : List Char}
  {s : Buffered State Token Lookahead Event}

/-- Between tags and after the text `w`, with the elements of `stack` open and these nodes in the
tree. -/
structure Place (doc : Document) (stack : List (Element loc))
    (nodes : List (Option (Element loc) × Node loc)) (w : List Char)
    (s : Buffered State Token Lookahead Event) : Prop where
  buffer : w = [] → s.2 = []
  read : ∃ told h, AfterText htmlGrammar .free (FreeText told) w s ∧
    (told ++ [Event.text w]).foldlM (HtmlTreeHandler.handle doc) .new = .ok h ∧
    h.elementStack = stack ∧ h.nodes = nodes

/-- What the handler does when it is told these events. -/
def Leads (doc : Document) (events : List Event) (stack stack' : List (Element loc))
    (nodes nodes' : List (Option (Element loc) × Node loc)) : Prop :=
  ∀ h : HtmlTreeHandler loc, h.elementStack = stack → h.nodes = nodes →
    ∃ h', events.foldlM (HtmlTreeHandler.handle doc) h = .ok h' ∧ h'.elementStack = stack' ∧
      h'.nodes = nodes'

/-- Markup is read, and the handler told of it. -/
theorem Place.markup (hplace : Place doc stack nodes w s) {text : List Char} {events : List Event}
    (hmarkup : Markup text events) (hleads : Leads doc events stack stack' nodes nodes') :
    ∃ s', htmlGrammar.process s (utf8 ('<' :: text)) = .ok s' ∧
      Place doc stack' nodes' [] s' := by
  obtain ⟨told, h, hafter, htold, hstack, hnodes⟩ := hplace.read
  obtain ⟨p, hprocess, hp⟩ := hafter.markup hmarkup
  obtain ⟨h', hevents, hstack', hnodes'⟩ := hleads h hstack hnodes
  refine ⟨(p, []), hprocess, fun _ ↦ rfl, _, h', (FreeText.reads _).afterText hp, ?_, hstack',
    hnodes'⟩
  rw [← List.singleton_append, ← List.append_assoc, List.append_assoc, List.foldlM_append, htold]
  show List.foldlM _ h (events ++ [.text []]) = _
  rw [List.foldlM_append, hevents]
  rfl

/-- To be told of an empty text makes no difference. -/
theorem foldlM_of_text_nil {told : List Event} {h h' : HtmlTreeHandler loc}
    (htold : (told ++ [Event.text []]).foldlM (HtmlTreeHandler.handle doc) h = .ok h') :
    told.foldlM (HtmlTreeHandler.handle doc) h = .ok h' := by
  rw [List.foldlM_append] at htold
  cases hresult : told.foldlM (HtmlTreeHandler.handle doc) h with
  | error e =>
    rw [hresult] at htold
    cases htold
  | ok h₀ =>
    rw [hresult] at htold
    exact htold

/-- A text is read after markup, and the handler told of it later. -/
theorem Place.text (hplace : Place doc stack nodes [] s) (hstack : stack ≠ []) {data : List Char}
    (hne : data ≠ []) (hlt : '<' ∉ data)
    (hunsplit : Grammar.UnsplitRuns (markOf .free) 0 data) :
    ∃ s', htmlGrammar.process s (utf8 data) = .ok s' ∧
      Place doc stack (nodes ++ [(stack.head?, .text data)]) data s' := by
  obtain ⟨told, h, ⟨-, p, hflush, -, hp⟩, htold, rfl, rfl⟩ := hplace.read
  -- nothing has been read since the markup, so that nothing is in the buffer
  have hs : s = (p, []) := by
    obtain ⟨q, buffer⟩ := s
    obtain rfl : buffer = [] := hplace.buffer rfl
    exact Except.ok.inj hflush
  have hallowed : Grammar.Allowed (markOf .free) (fun _ c ↦ c ≠ '<') [] data := by
    rintro u c v rfl - rfl
    exact hlt (by simp)
  obtain ⟨s', hprocess, h'⟩ :=
    (FreeText.reads told).process _ (Nat.lt_succ_self _) hp hunsplit hallowed
  rw [hs]
  have hbefore := foldlM_of_text_nil htold
  have htext : h.text data =
      .ok { h with nodes := h.nodes ++ [(h.elementStack.head?, .text data)] } := by
    obtain ⟨e, rest, hcons⟩ := List.exists_cons_of_ne_nil hstack
    have hcurrent : h.current = some e := by
      rw [HtmlTreeHandler.current, hcons]
      rfl
    rw [HtmlTreeHandler.text, if_neg hne, if_neg hlt, if_neg (by simp [hcurrent]),
      HtmlTreeHandler.appendChild, if_pos (by simp [HtmlTreeHandler.accepts, hcurrent])]
    rfl
  refine ⟨s', hprocess, fun hnil ↦ absurd hnil hne, told,
    { h with nodes := h.nodes ++ [(h.elementStack.head?, .text data)] }, h', ?_, rfl, rfl⟩
  rw [List.foldlM_append, hbefore]
  show h.text data >>= _ = _
  rw [htext]
  rfl

/-- The handler is told of one event. -/
theorem leads_of_handle {event : Event}
    (hevent : ∀ h : HtmlTreeHandler loc, h.elementStack = stack → h.nodes = nodes →
      ∃ h', h.handle doc event = .ok h' ∧ h'.elementStack = stack' ∧ h'.nodes = nodes') :
    Leads doc [event] stack stack' nodes nodes' := by
  intro h hstack hnodes
  obtain ⟨h', hhandle, hh'⟩ := hevent h hstack hnodes
  refine ⟨h', ?_, hh'⟩
  rw [List.foldlM_cons, hhandle]
  rfl

/-- What is written by itself, and appended to the element that is open. -/
theorem leads_appendChild {event : Event} {node : Node loc}
    (hevent : ∀ h : HtmlTreeHandler loc, h.elementStack = stack →
      h.handle doc event = h.appendChild node ∧ h.accepts node = true) :
    Leads doc [event] stack stack nodes (nodes ++ [(stack.head?, node)]) := by
  refine leads_of_handle ?_
  rintro h rfl rfl
  obtain ⟨hhandle, haccepts⟩ := hevent h rfl
  refine ⟨{ h with nodes := h.nodes ++ [(h.elementStack.head?, node)] }, ?_, rfl, rfl⟩
  rw [hhandle, HtmlTreeHandler.appendChild, if_pos haccepts]
  rfl

theorem leads_comment {data : List Char} (hfits : Section.comment.Fits data) :
    Leads doc [.comment data] stack stack nodes (nodes ++ [(stack.head?, .comment data)]) := by
  refine leads_appendChild fun h _ ↦ ⟨if_neg ?_, rfl⟩
  rintro rfl
  exact (hfits.begins rfl '>' rfl).2 rfl

theorem leads_cdata (hstack : stack ≠ []) (data : List Char) :
    Leads doc [.cdata data] stack stack nodes
      (nodes ++ [(stack.head?, .cdataSection data)]) := by
  refine leads_appendChild fun h hh ↦ ⟨rfl, ?_⟩
  show h.elementStack.head?.isSome = true
  rw [hh]
  exact List.isSome_head?.2 hstack

theorem leads_directive {target data : List Char} (htarget : doc.isXMLName target)
    (hdata : trim data = data) :
    Leads doc [.directive (target ++ ' ' :: data)] stack stack nodes
      (nodes ++ [(stack.head?, .processingInstruction target data)]) := by
  refine leads_appendChild fun h _ ↦ ⟨?_, rfl⟩
  have hspace := StartTag.ne_space htarget
  have htrim : trim (' ' :: data) = data := hdata
  show h.directive doc _ = _
  rw [HtmlTreeHandler.directive, List.dropWhile_append_of_pos hspace,
    List.takeWhile_append_of_pos hspace, List.dropWhile_cons_of_neg (by decide),
    List.takeWhile_cons_of_neg (by decide), List.append_nil]
  dsimp only
  rw [if_pos htarget, htrim]

/-- The name of the element that is open. -/
def topName : List (Element loc) → List Char
  | [] => []
  | last :: _ => last.nodeName

/-- The element of a tag, after `index` nodes. -/
def StartTag.elem (loc : Locale) (t : StartTag doc) (index : ℕ) : Element loc :=
  ⟨index, loc.normalize t.element, t.attributes.map Attribute.pair,
    loc.normalize_normalize t.element⟩

variable {t : StartTag doc}

/-- An element starts. -/
theorem leads_startElement (hname : loc.normalize t.element = t.element)
    (hsurvives : Survives (stop (filledBy 0 t.element) ' ') t.attributes)
    (hopen : ¬(t.element ∈ optionalElements ∧ topName stack ++ ':' :: t.element ∈ optionalClose))
    (hroot : stack ≠ [] ∨ nodes = []) :
    Leads doc [.startElement t.element t.attrText] stack
      (if t.element ∈ voidElements then stack else t.elem loc nodes.length :: stack) nodes
      (nodes ++ [(stack.head?, .element (t.elem loc nodes.length))]) := by
  refine leads_of_handle ?_
  rintro h rfl rfl
  obtain ⟨attrParser, hattr⟩ := StartTag.parseAttributes_attrText hsurvives h
  have hlast : h.lastNodeName = topName h.elementStack := by
    rw [HtmlTreeHandler.lastNodeName]
    cases h.elementStack <;> rfl
  have hnodup : ((t.attributes.map Attribute.pair).map Prod.fst).Nodup := by
    have hnames := t.nodup
    simpa [List.map_map, Function.comp_def, AttrGrammar.fst_pair] using hnames
  have hstart := HtmlTreeHandler.startElement_eq hname t.isXMLName_element (by rwa [hlast]) hattr
    hnodup hroot
  refine ⟨{ h with
    attrParser := attrParser
    nodes := h.nodes ++ [(h.current, .element (t.elem loc h.nodes.length))]
    elementStack := if t.element ∈ voidElements then h.elementStack
      else t.elem loc h.nodes.length :: h.elementStack }, ?_, rfl, rfl⟩
  show h.startElement doc t.element t.attrText = _
  rw [hstart]
  rfl

/-- The element that is open ends. -/
theorem leads_endElement {e : Element loc} {name : List Char} (hname : e.nodeName = name) :
    Leads doc [.endElement name] (e :: stack) stack nodes nodes := by
  subst hname
  refine leads_of_handle fun h hstack hnodes ↦ ?_
  exact ⟨{ h with elementStack := stack }, HtmlTreeHandler.endElement_top hstack, rfl, hnodes⟩

theorem Leads.append {events events' : List Event} {stack'' : List (Element loc)}
    {nodes'' : List (Option (Element loc) × Node loc)}
    (h₁ : Leads doc events stack stack' nodes nodes')
    (h₂ : Leads doc events' stack' stack'' nodes' nodes'') :
    Leads doc (events ++ events') stack stack'' nodes nodes'' := by
  intro h hstack hnodes
  obtain ⟨h', hevents, hstack', hnodes'⟩ := h₁ h hstack hnodes
  obtain ⟨h'', hevents', hstack'', hnodes''⟩ := h₂ h' hstack' hnodes'
  refine ⟨h'', ?_, hstack'', hnodes''⟩
  rw [List.foldlM_append, hevents]
  exact hevents'

/-! ### The tree -/

/-- Wherever the parser is in an element of the name `parent`, it reads what is written of a tree
and is in the element again; after a text, no text may follow. -/
def ReadsTree (doc : Document) (loc : Locale) (parent : List Char) (tree : DomTree) : Prop :=
  ∀ {stack : List (Element loc)} {nodes w s}, topName stack = parent →
    (stack ≠ [] ∨ tree.isElement ∧ nodes = []) → (tree.isText → w = []) →
    Place doc stack nodes w s →
    ∃ w' s', htmlGrammar.process s (utf8 (HtmlWriter.write tree)) = .ok s' ∧
      Place doc stack (nodes ++ tree.nodes loc stack.head? nodes.length) w' s' ∧
      (¬tree.isText → w' = [])

/-- The nodes below an element are read one after the other. -/
theorem reads_children {e : Element loc} (children : List DomTree) :
    (∀ child ∈ children, ReadsTree doc loc e.nodeName child) →
    (children.IsChain fun a b ↦ ¬(a.isText ∧ b.isText)) → ∀ {nodes w s},
    (∀ child ∈ children.head?, child.isText → w = []) → Place doc (e :: stack) nodes w s →
      ∃ w' s', htmlGrammar.process s (utf8 (writeChildren children)) = .ok s' ∧
        Place doc (e :: stack) (nodes ++ DomTree.nodesBelow loc e nodes.length children) w' s' := by
  induction children with
  | nil =>
    intro _ _ nodes w s _ hplace
    rw [DomTree.nodesBelow, List.append_nil]
    exact ⟨w, s, rfl, hplace⟩
  | cons child children ih =>
    intro hreads hapart nodes w s hfirst hplace
    obtain ⟨hchild, hchildren⟩ := List.forall_mem_cons.1 hreads
    have htop : topName (e :: stack) = e.nodeName := rfl
    obtain ⟨w₁, s₁, hprocess₁, hplace₁, hw₁⟩ :=
      hchild htop (.inl (List.cons_ne_nil _ _)) (hfirst child rfl) hplace
    obtain ⟨hnot, hapart⟩ := List.isChain_cons.1 hapart
    have hnext : ∀ c ∈ children.head?, c.isText → w₁ = [] := by
      intro c hc htext
      exact hw₁ fun hchildText ↦ hnot c hc ⟨hchildText, htext⟩
    obtain ⟨w', s', hprocess', hplace'⟩ := ih hchildren hapart hnext hplace₁
    refine ⟨w', s', ?_, ?_⟩
    · rw [writeChildren, utf8_append, htmlGrammar.process_append, hprocess₁]
      exact hprocess'
    · rw [DomTree.nodesBelow]
      simpa using hplace'

/-- The attributes are written as they stand in a tag. -/
theorem writeAttributes_pair (as : List (Attribute doc))
    (hdouble : ∀ a ∈ as, ∃ v, a.value = some (.double, v)) :
    writeAttributes (as.map Attribute.pair) = as.flatMap fun a ↦ ' ' :: a.text := by
  rw [writeAttributes, List.flatMap_map]
  refine List.flatMap_congr fun a ha ↦ ?_
  obtain ⟨v, hv⟩ := hdouble a ha
  rw [Attribute.pair, Attribute.text, hv]
  rfl

/-- An end tag. -/
theorem markup_endTag (hunsplit : Unsplit 0 t.element) :
    Markup ('/' :: (t.element ++ ['>'])) [.endElement t.element] := by
  refine markup_bracket (k := .close) (AttrGrammar.ne_nil_of_isXMLName t.isXMLName_element)
    (fun c hc ↦ ?_) hunsplit
  have hmark := not_mem_marks t.isXMLName_element c hc
  simp only [marks, List.mem_cons, List.not_mem_nil, or_false, not_or] at hmark
  simp [markOf, Bracket.state, getTokens, Token.text?, Ne.symm, hmark]

section Element

variable {parent : List Char} {children : List DomTree}

/-- An element is read with all that is below it. -/
theorem readsTree_element (hname : loc.normalize t.element = t.element)
    (hunsplit : Unsplit 0 t.element)
    (hdouble : ∀ a ∈ t.attributes, ∃ v, a.value = some (.double, v))
    (hsurvives : Survives (stop (filledBy 0 t.element) ' ') t.attributes)
    (hopen : ¬(t.element ∈ optionalElements ∧ parent ++ ':' :: t.element ∈ optionalClose))
    (hvoid : t.element ∈ voidElements → children = [])
    (hapart : children.IsChain fun a b ↦ ¬(a.isText ∧ b.isText))
    (hreads : ∀ child ∈ children, ReadsTree doc loc t.element child) :
    ReadsTree doc loc parent (.element t.element (t.attributes.map Attribute.pair) children) := by
  rintro stack nodes w s rfl hroot - hplace
  have hstart := leads_startElement hname hsurvives hopen (hroot.imp_right And.right)
  have hend : ∀ nodes', Leads doc [.endElement t.element] (t.elem loc nodes.length :: stack) stack
      nodes' nodes' := fun _ ↦ leads_endElement hname
  have htag := markup_startTag t
  rw [StartTag.splitSpace_tagContent hunsplit] at htag
  rw [HtmlWriter.write, writeAttributes_pair _ hdouble, ← StartTag.inner, DomTree.nodes]
  by_cases hmem : t.element ∈ voidElements
  · -- the tag of a void element is all of it
    obtain rfl := hvoid hmem
    rw [if_pos hmem] at hstart
    obtain ⟨s', hprocess, hplace'⟩ := hplace.markup htag hstart
    rw [if_pos hmem]
    exact ⟨[], s', hprocess, hplace', fun _ ↦ rfl⟩
  rw [if_neg hmem] at hstart
  rw [if_neg hmem]
  cases hchildren : children with
  | nil =>
    -- the writer closes an element without children in its tag
    have hcomplete := markup_completeTag t
    rw [StartTag.completed_tagContent hunsplit hdouble] at hcomplete
    obtain ⟨s', hprocess, hplace'⟩ := hplace.markup hcomplete (hstart.append (hend _))
    exact ⟨[], s', hprocess, hplace', fun _ ↦ rfl⟩
  | cons child rest =>
    rw [← hchildren, if_neg (by simp [hchildren])]
    obtain ⟨s₁, hprocess₁, hplace₁⟩ := hplace.markup htag hstart
    have hreads' : ∀ child ∈ children, ReadsTree doc loc (t.elem loc nodes.length).nodeName child :=
      fun child hchild ↦ by
        rw [show (t.elem loc nodes.length).nodeName = t.element from hname]
        exact hreads child hchild
    obtain ⟨w₂, s₂, hprocess₂, hplace₂⟩ := reads_children children hreads' hapart
      (fun _ _ _ ↦ rfl) hplace₁
    obtain ⟨s', hprocess', hplace'⟩ := hplace₂.markup (markup_endTag hunsplit) (hend _)
    rw [List.append_assoc, List.singleton_append, List.length_append] at hplace'
    refine ⟨[], s', ?_, hplace', fun _ ↦ rfl⟩
    have hutf8 : utf8 ('<' :: (t.inner ++
        '>' :: (writeChildren children ++ '<' :: '/' :: (t.element ++ ['>'])))) =
        utf8 ('<' :: (t.inner ++ ['>'])) ++ (utf8 (writeChildren children) ++
          utf8 ('<' :: '/' :: (t.element ++ ['>']))) := by
      simp only [utf8_cons, utf8_append, List.append_assoc, utf8_nil, List.nil_append]
    rw [hutf8, htmlGrammar.process_append, hprocess₁]
    refine (htmlGrammar.process_append s₁ _ _).trans ?_
    rw [hprocess₂]
    exact hprocess'

end Element

/-- What is readable is read. -/
theorem Readable.reads {parent : List Char} {tree : DomTree} (h : Readable doc loc parent tree) :
    ReadsTree doc loc parent tree := by
  induction h with
  | element t hname hunsplit hdouble hsurvives hopen hvoid hapart _ ih =>
    exact readsTree_element hname hunsplit hdouble hsurvives hopen hvoid hapart ih
  | text hne hlt hunsplit =>
    rintro stack nodes w s - hroot hw hplace
    -- a text comes after markup: two of them would be read as one
    obtain rfl := hw rfl
    have hstack : stack ≠ [] := hroot.resolve_right fun h ↦ absurd h.1 Bool.false_ne_true
    obtain ⟨s', hprocess, hplace'⟩ := hplace.text hstack hne hlt hunsplit
    exact ⟨_, s', hprocess, hplace', fun h ↦ absurd rfl h⟩
  | comment hfits =>
    rintro stack nodes w s - - - hplace
    obtain ⟨s', hprocess, hplace'⟩ := hplace.markup (markup_section hfits) (leads_comment hfits)
    exact ⟨[], s', hprocess, hplace', fun _ ↦ rfl⟩
  | cdataSection hfits =>
    rintro stack nodes w s - hroot - hplace
    have hstack : stack ≠ [] := hroot.resolve_right fun h ↦ absurd h.1 Bool.false_ne_true
    obtain ⟨s', hprocess, hplace'⟩ := hplace.markup (markup_section hfits) (leads_cdata hstack _)
    exact ⟨[], s', hprocess, hplace', fun _ ↦ rfl⟩
  | processingInstruction htarget hdata hmarks hunsplit =>
    rintro stack nodes w s - - - hplace
    have hmarkup := markup_bracket (k := .declDirective) (by simp) hmarks hunsplit
    obtain ⟨s', hprocess, hplace'⟩ := hplace.markup hmarkup (leads_directive htarget hdata)
    refine ⟨[], s', ?_, hplace', fun _ ↦ rfl⟩
    rw [← hprocess, HtmlWriter.write, writeDirective, List.append_assoc]
    rfl

end Place

/-- An element without attributes. -/
theorem readable_plain {doc : Document} {loc : Locale} {parent name : List Char}
    {children : List DomTree} (hxml : doc.isXMLName name) (hname : loc.normalize name = name)
    (hunsplit : Unsplit 0 name)
    (hopen : ¬(name ∈ optionalElements ∧ parent ++ ':' :: name ∈ optionalClose))
    (hvoid : name ∈ voidElements → children = [])
    (hapart : children.IsChain fun a b ↦ ¬(a.isText ∧ b.isText))
    (hbelow : ∀ child ∈ children, Readable doc loc name child) :
    Readable doc loc parent (.element name [] children) :=
  .element ⟨name, [], hxml, List.nodup_nil⟩ hname hunsplit
    (fun _ ha ↦ absurd ha List.not_mem_nil) trivial hopen hvoid hapart hbelow

/-- `<div id="it's">` -/
def divTag : StartTag asciiDocument where
  element := "div".toList
  attributes := [⟨"id".toList, some (.double, "it's".toList), by decide, by rintro _ _ ⟨⟩; decide⟩]
  isXMLName_element := by decide
  nodup := by decide

/-- A document in which every kind of node stands once, and elements with and without children. -/
def sampleTree : DomTree :=
  .element "div".toList [("id".toList, "it's".toList)] [
    .processingInstruction "DOCTYPE".toList "html".toList,
    .text "a &lt; b".toList,
    .element "br".toList [] [],
    .element "p".toList [] [.text "c".toList, .element "i".toList [] []],
    .comment "d - e".toList,
    .cdataSection "<f>".toList]

example : HtmlWriter.write sampleTree =
    ("<div id=\"it's\"><!DOCTYPE html>a &lt; b<br><p>c<i/></p>" ++
      "<!--d - e--><![CDATA[<f>]]></div>").toList := by
  decide

theorem readable_sampleTree : Readable asciiDocument asciiLocale [] sampleTree := by
  have hi : Readable asciiDocument asciiLocale "p".toList (.element "i".toList [] []) :=
    readable_plain (by decide) (by decide) (by decide) (by decide) (by decide) (by decide) (by simp)
  have hbr : Readable asciiDocument asciiLocale "div".toList (.element "br".toList [] []) :=
    readable_plain (by decide) (by decide) (by decide) (by decide) (by decide) (by decide) (by simp)
  have hp : Readable asciiDocument asciiLocale "div".toList
      (.element "p".toList [] [.text "c".toList, .element "i".toList [] []]) := by
    refine readable_plain (by decide) (by decide) (by decide) (by decide) (by decide) (by decide) ?_
    simp only [List.forall_mem_cons]
    exact ⟨.text (by decide) (by decide) (by decide), hi, fun _ h ↦ absurd h List.not_mem_nil⟩
  refine .element divTag (by decide) (by decide) ?_ ?_ (by decide) (by decide) (by decide) ?_
  · intro a ha
    obtain rfl := List.mem_singleton.1 ha
    exact ⟨_, rfl⟩
  · exact ⟨by decide, by decide, rfl, by decide, by decide, trivial⟩
  · simp only [List.forall_mem_cons]
    refine ⟨.processingInstruction (by decide) (by decide)
        (List.forall_iff_forall_mem.1 (by decide)) (by decide),
      .text (by decide) (by decide) (by decide), hbr, hp, .comment ?_, .cdataSection ?_,
      fun _ h ↦ absurd h List.not_mem_nil⟩
    · refine ⟨by decide, fun _ c hc ↦ ?_, by decide, by decide⟩
      obtain rfl := Option.some.inj hc
      decide
    · exact ⟨by decide, fun h ↦ absurd h (by simp), by decide, by decide⟩

end JPype.Html
