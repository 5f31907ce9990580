import JPype.Foundation.Membership
import JPype.Html.AttrGrammar
import JPype.Html.HtmlGrammar
import Mathlib.Data.List.DropRight

/-!
# The tree of a document

`org.jpype.html.HtmlTreeHandler` builds the tree of a document from what the grammar tells it. Names
are brought to lower case and trimmed. The elements that are open are kept on a stack, with the last
one first, so that what comes next is appended to its first element, or to the root.

A tag that ends an element closes, before it, the open elements whose end may be omitted. If the
element on top is then another one, the handler tries to recover, and closes one element too few, or
none at all. What lies above the element of the tag decides (`closesExactly_of_endsCleanly`,
`endsCleanly_or_of_closesExactly`).
-/

namespace JPype.Html

open HtmlGrammar
open scoped Foundation.Membership

/-! ### Names -/

/-- The default locale, by which texts are brought to lower case: what is in lower case stays, and
white space and controls stay and part a text. -/
structure Locale where
  toLowerCase : List Char → List Char
  toLowerCase_of_isInfix : ∀ s t, t <:+: toLowerCase s → toLowerCase t = t
  toLowerCase_append : ∀ s c t, c ≤ ' ' →
    toLowerCase (s ++ c :: t) = toLowerCase s ++ c :: toLowerCase t

/-- `name.toLowerCase().trim()` -/
def Locale.normalize (loc : Locale) (name : List Char) : List Char :=
  trim (loc.toLowerCase name)

theorem trim_isInfix (s : List Char) : trim s <:+: s := by
  have hend : trim s <+: s.dropWhile (· ≤ ' ') := by
    rw [trim, ← List.reverse_suffix, List.reverse_reverse]
    exact List.dropWhile_suffix _
  exact hend.isInfix.trans (List.dropWhile_suffix _).isInfix

theorem trim_trim (s : List Char) : trim (trim s) = trim s := by
  let white : Char → Bool := fun c ↦ c ≤ ' '
  have hstart : ((s.dropWhile white).rdropWhile white).dropWhile white =
      (s.dropWhile white).rdropWhile white := by
    have hprefix := List.rdropWhile_prefix white (l := s.dropWhile white)
    cases hr : (s.dropWhile white).rdropWhile white with
    | nil => rfl
    | cons c r =>
      obtain ⟨rest, hrest⟩ := hr ▸ hprefix
      have hc : ¬white c := by
        have hnot := List.head?_dropWhile_not white s
        rw [← hrest] at hnot
        simpa using hnot
      rw [List.dropWhile_cons, if_neg hc]
  show (((s.dropWhile white).rdropWhile white).dropWhile white).rdropWhile white = _
  rw [hstart]
  exact List.rdropWhile_idempotent white (s.dropWhile white)

theorem Locale.normalize_normalize (loc : Locale) (name : List Char) :
    loc.normalize (loc.normalize name) = loc.normalize name := by
  show trim (loc.toLowerCase (trim (loc.toLowerCase name))) = trim (loc.toLowerCase name)
  rw [loc.toLowerCase_of_isInfix name _ (trim_isInfix _), trim_trim]

theorem toLower_of_le {c : Char} (hc : c ≤ ' ') : c.toLower = c := by
  rw [Char.toLower.eq_def, dif_neg]
  rintro ⟨hupper, -⟩
  exact absurd (UInt32.le_trans hupper hc) (by decide)

theorem toLower_toLower (c : Char) : c.toLower.toLower = c.toLower := by
  rw [Char.toLower.eq_def c]
  split
  · next hc =>
    rw [Char.toLower.eq_def, dif_neg]
    rintro ⟨-, hle⟩
    have hle : (c.val + 32).toNat ≤ 90 := UInt32.le_iff_toNat_le.1 hle
    have hlower : 65 ≤ c.val.toNat := UInt32.le_iff_toNat_le.1 hc.1
    have hupper : c.val.toNat ≤ 90 := UInt32.le_iff_toNat_le.1 hc.2
    rw [UInt32.toNat_add, Nat.mod_eq_of_lt (Nat.lt_of_le_of_lt (Nat.add_le_add_right hupper _)
      (by decide))] at hle
    exact absurd (Nat.add_le_add_right hlower 32)
      (Nat.not_le_of_lt (Nat.lt_of_le_of_lt hle (by decide)))
  · next hc => rw [Char.toLower.eq_def, dif_neg hc]

/-- A locale that knows the letters of ASCII. -/
def asciiLocale : Locale where
  toLowerCase s := s.map Char.toLower
  toLowerCase_of_isInfix s t ht := by
    refine (List.map_congr_left fun c hc ↦ ?_).trans (List.map_id t)
    obtain ⟨d, -, rfl⟩ := List.mem_map.1 (ht.subset hc)
    exact toLower_toLower d
  toLowerCase_append s c t hc := by
    rw [List.map_append, List.map_cons, toLower_of_le hc]

/-- The text of a literal. -/
def names (l : List String) : List (List Char) :=
  l.map String.toList

/-- `Html.VOID_ELEMENTS` -/
def voidElements : List (List Char) :=
  names ["area", "base", "br", "col", "command", "embed", "hr", "img", "input", "keygen", "link",
    "meta", "param", "source", "track", "wbr"]

/-- `Html.OPTIONAL_ELEMENTS` -/
def optionalElements : List (List Char) :=
  names ["html", "head", "body", "p", "dt", "dd", "li", "option", "thead", "th", "tbody", "tr",
    "td", "tfoot", "colgroup"]

/-- `Html.OPTIONAL_CLOSE` -/
def optionalClose : List (List Char) :=
  names ["li:li", "dt:dd", "p:address", "p:article", "p:aside", "p:blockquote", "p:details",
    "p:div", "p:dl", "p:fieldset", "p:figcaption", "p:figure", "p:footer", "p:form", "p:h1", "p:h2",
    "p:h3", "p:h4", "p:h5", "p:h6", "p:header", "p:hgroup", "p:hr", "p:main", "p:menu", "p:nav",
    "p:ol", "p:p", "p:pre", "p:section", "p:table", "p:ul", "dd:dt", "dd:dd", "dt:dt", "dt:dd",
    "rt:rt", "rt:rp", "rp:rt", "rp:rp", "optgroup:optgroup", "option:option", "option:optiongroup",
    "thread:tbody", "thread:tfoot", "tbody:tfoot", "tbody:tbody", "tr:tr", "td:td", "td:th",
    "th:td", "p:li"]

/-! ### The handler -/

/-- `org.w3c.dom.Element`: one of the nodes, with its name and its attributes. -/
structure Element (loc : Locale) where
  index : ℕ
  nodeName : List Char
  attributes : List (List Char × List Char)
  normalize_nodeName : loc.normalize nodeName = nodeName
  deriving DecidableEq, Repr

/-- `org.w3c.dom.Node` -/
inductive Node (loc : Locale) where
  | element (e : Element loc)
  | text (data : List Char)
  | comment (data : List Char)
  | cdataSection (data : List Char)
  | processingInstruction (target data : List Char)
  deriving DecidableEq, Repr

/-- `HtmlTreeHandler`; `nodes` are those below `root` in the order of the document, each after its
parent, which is none for `root`. -/
structure HtmlTreeHandler (loc : Locale) where
  nodes : List (Option (Element loc) × Node loc)
  elementStack : List (Element loc)
  attrParser : AttrGrammar.AttrParser
  errors : ℕ
  deriving DecidableEq, Repr

namespace HtmlTreeHandler

variable {loc : Locale}

/-- A handler that is new. -/
def new : HtmlTreeHandler loc :=
  ⟨[], [], .new, 0⟩

variable (h : HtmlTreeHandler loc)

/-- `current`, which is the last element of the stack whenever that is changed, and else `root`. -/
def current : Option (Element loc) :=
  h.elementStack.head?

/-- `lastNodeName` -/
def lastNodeName : List Char :=
  match h.elementStack with
  | [] => []
  | last :: _ => last.nodeName

/-- `getPath` -/
def getPath : List Char :=
  h.elementStack.reverse.flatMap fun s ↦
    '/' :: (s.nodeName ++ match s.attributes with
      | [] => []
      | attrs => '[' :: (attrs.flatMap fun (name, value) ↦ name ++ '=' :: (value ++ [' '])) ++
        [']'])

/-! ### Ends -/

/-- `elementStack.removeLast()` -/
def removeLast (h : HtmlTreeHandler loc) : Attempt (HtmlTreeHandler loc) (HtmlTreeHandler loc) :=
  match h.elementStack with
  | [] => .error (.noSuchElement, h)
  | _ :: rest => .ok { h with elementStack := rest }

/-- The loop of `endElement` over the elements whose end may be omitted, with the element on top
after it. -/
def closeOptional
    (endElement : List Char → HtmlTreeHandler loc →
      Attempt (HtmlTreeHandler loc) (HtmlTreeHandler loc))
    (name : List Char) : ℕ → HtmlTreeHandler loc →
      Attempt (HtmlTreeHandler loc) (Element loc × HtmlTreeHandler loc)
  | 0, h => .error (.nontermination, h)
  | n + 1, h =>
    match h.elementStack with
    | [] => .error (.noSuchElement, h)
    | last :: _ =>
      if last.nodeName ≠ name ∧ last.nodeName ∈ optionalElements then do
        let h ← endElement last.nodeName h
        closeOptional endElement name n h
      else .ok (last, h)

/-- The search of `endElement` downwards, for an element of the name: how many elements have been
passed, and what lies below it. -/
def search (name : List Char) : List (Element loc) → Option (ℕ × List (Element loc))
  | [] => none
  | prev :: rest =>
    if prev.nodeName = name then some (0, rest)
    else (search name rest).map fun (i, below) ↦ (i + 1, below)

/-- The loop of `endElement` over the elements that have not been closed. -/
def closeMissing
    (endElement : List Char → HtmlTreeHandler loc →
      Attempt (HtmlTreeHandler loc) (HtmlTreeHandler loc))
    (last : List Char) : ℕ → HtmlTreeHandler loc →
      Attempt (HtmlTreeHandler loc) (HtmlTreeHandler loc)
  | 0, h => .ok h
  | j + 1, h => do
    let h ← endElement last h
    closeMissing endElement last j h

/-- `endElement` where the element on top is another one: the elements above the one of the name are
to be closed. -/
def recover
    (endElement : List Char → HtmlTreeHandler loc →
      Attempt (HtmlTreeHandler loc) (HtmlTreeHandler loc))
    (name : List Char) (last : Element loc) (h : HtmlTreeHandler loc) :
    Attempt (HtmlTreeHandler loc) (HtmlTreeHandler loc) :=
  match search name h.elementStack.tail with
  | none => .error (.noSuchElement, h)
  | some (i, _ :: _) => do
    let h ← closeMissing endElement last.nodeName i h
    removeLast h
  | some (_, []) =>
    if 3 < h.errors then
      .error (.runtimeException (String.ofList ("mismatch element ".toList ++ name ++
        ' ' :: (last.nodeName ++ " at ".toList ++ h.getPath))), h)
    else .ok h

/-- `endElement`, which calls itself up to `n` deep. -/
def endWithin : ℕ → List Char → HtmlTreeHandler loc →
    Attempt (HtmlTreeHandler loc) (HtmlTreeHandler loc)
  | 0, _, h => .error (.nontermination, h)
  | n + 1, name, h => do
    let name := loc.normalize name
    if h.elementStack = [] then throw (.runtimeException "Empty stack", h)
    let (last, h) ← closeOptional (endWithin n) name (h.elementStack.length + 1) h
    if last.nodeName = name then removeLast h
    else recover (endWithin n) name last { h with errors := h.errors + 1 }

/-- `endElement` -/
def endElement (name : List Char) (h : HtmlTreeHandler loc) :
    Attempt (HtmlTreeHandler loc) (HtmlTreeHandler loc) :=
  endWithin (h.elementStack.length + 1) name h

/-! ### Starts and the rest -/

/-- The loop of `startElement`, by which the end of the elements on top is supplied. -/
def autoClose (name : List Char) : ℕ → HtmlTreeHandler loc →
    Attempt (HtmlTreeHandler loc) (HtmlTreeHandler loc)
  | 0, h => .error (.nontermination, h)
  | n + 1, h =>
    if name ∈ optionalElements ∧ h.lastNodeName ++ ':' :: name ∈ optionalClose then do
      let h ← h.endElement h.lastNodeName
      autoClose name n h
    else .ok h

/-- `Element.setAttributeNode`, on the attributes that are there. -/
def setAttributeNode (attributes : List (List Char × List Char)) (a : List Char × List Char) :
    List (List Char × List Char) :=
  if a.1 ∈ attributes.map Prod.fst then attributes.map fun b ↦ if b.1 = a.1 then a else b
  else attributes ++ [a]

/-- What may be appended to `current`: to `root` one element at most, and no text. -/
def accepts : Node loc → Bool
  | .element _ => h.current.isSome || h.nodes.all fun
    | (none, .element _) => false
    | _ => true
  | .text _ | .cdataSection _ => h.current.isSome
  | _ => true

/-- `current.appendChild` -/
def appendChild (node : Node loc) (h : HtmlTreeHandler loc) :
    Attempt (HtmlTreeHandler loc) (HtmlTreeHandler loc) :=
  if h.accepts node then .ok { h with nodes := h.nodes ++ [(h.current, node)] }
  else .error (.domException, h)

/-- `attrParser.parse` of the attributes, if there are any. -/
def parseAttributes (doc : Document) (attr : Option (List Char)) (h : HtmlTreeHandler loc) :
    Attempt (HtmlTreeHandler loc) (List (List Char × List Char) × HtmlTreeHandler loc) :=
  match attr with
  | none => .ok ([], h)
  | some attr =>
    match (attrGrammar doc).parse h.attrParser attr with
    | .error (e, attrParser) => .error (e, { h with attrParser })
    | .ok attrParser => .ok (attrParser.delivered, { h with attrParser })

/-- `startElement` -/
def startElement (doc : Document) (name : List Char) (attr : Option (List Char))
    (h : HtmlTreeHandler loc) : Attempt (HtmlTreeHandler loc) (HtmlTreeHandler loc) := do
  let h ← h.autoClose (loc.normalize name) (h.elementStack.length + 1)
  if ¬doc.isXMLName (loc.normalize name) then
    throw (.runtimeException (String.ofList
      ("Fail to create node '".toList ++ loc.normalize name ++ ['\''])), h)
  let (attrs, h) ← h.parseAttributes doc attr
  let elem : Element loc :=
    ⟨h.nodes.length, loc.normalize name, attrs.foldl setAttributeNode [],
      loc.normalize_normalize name⟩
  let h ← h.appendChild (.element elem)
  if elem.nodeName ∈ voidElements then return h
  return { h with elementStack := elem :: h.elementStack }

/-- `comment` -/
def comment (contents : List Char) (h : HtmlTreeHandler loc) :
    Attempt (HtmlTreeHandler loc) (HtmlTreeHandler loc) :=
  if contents = ['>'] then .error (.runtimeException "", h)
  else h.appendChild (.comment contents)

/-- `text` -/
def text (text : List Char) (h : HtmlTreeHandler loc) :
    Attempt (HtmlTreeHandler loc) (HtmlTreeHandler loc) :=
  if text = [] then .ok h
  else if '<' ∈ text then
    .error (.runtimeException (String.ofList
      ("bad text `".toList ++ text ++ "` at ".toList ++ h.getPath)), h)
  else if h.current = none then .ok h
  else h.appendChild (.text text)

/-- `cdata` -/
def cdata (text : List Char) (h : HtmlTreeHandler loc) :
    Attempt (HtmlTreeHandler loc) (HtmlTreeHandler loc) :=
  h.appendChild (.cdataSection text)

/-- `directive` -/
def directive (doc : Document) (content : List Char) (h : HtmlTreeHandler loc) :
    Attempt (HtmlTreeHandler loc) (HtmlTreeHandler loc) :=
  match content.dropWhile (· ≠ ' ') with
  | [] =>
    .error (.runtimeException ("begin 0, end -1, length " ++ Nat.repr content.length), h)
  | data =>
    let target := content.takeWhile (· ≠ ' ')
    if doc.isXMLName target then h.appendChild (.processingInstruction target (trim data))
    else .error (.domException, h)

/-- What the handler does when it is told. -/
def handle (doc : Document) (h : HtmlTreeHandler loc) :
    Event → Attempt (HtmlTreeHandler loc) (HtmlTreeHandler loc)
  | .startDocument | .endDocument => .ok h
  | .startElement name attr => h.startElement doc name attr
  | .endElement name => h.endElement name
  | .text text => h.text text
  | .cdata text => h.cdata text
  | .comment contents => h.comment contents
  | .directive text => h.directive doc text

/-! ### What an end does -/

/-- An element that is closed before one of the name is. -/
def Skipped (name : List Char) (e : Element loc) : Bool :=
  e.nodeName ≠ name ∧ e.nodeName ∈ optionalElements

variable {h : HtmlTreeHandler loc} {name : List Char} {e last : Element loc}
  {rest below : List (Element loc)}

/-- The element on top is closed by its own name. -/
theorem endWithin_top (hstack : h.elementStack = e :: rest) (n : ℕ) :
    endWithin (n + 1) e.nodeName h = .ok { h with elementStack := rest } := by
  obtain ⟨nodes, stack, attrParser, errors⟩ := h
  obtain rfl : stack = e :: rest := hstack
  rw [endWithin]
  simp [e.normalize_nodeName, closeOptional, removeLast, bind, Except.bind]

theorem closeOptional_eq (n : ℕ) (name : List Char) (stack : List (Element loc)) :
    ∀ (k : ℕ) (h : HtmlTreeHandler loc), h.elementStack = stack → stack.length < k →
      closeOptional (endWithin (n + 1)) name k h =
        match stack.dropWhile (Skipped name) with
        | [] => .error (.noSuchElement, { h with elementStack := [] })
        | last :: below => .ok (last, { h with elementStack := last :: below }) := by
  induction stack with
  | nil =>
    rintro k ⟨nodes, stack, attrParser, errors⟩ hstack hk
    obtain rfl : stack = [] := hstack
    obtain ⟨k, rfl⟩ := Nat.exists_eq_succ_of_ne_zero (Nat.ne_of_gt hk)
    rfl
  | cons e stack ih =>
    rintro k ⟨nodes, stack', attrParser, errors⟩ hstack hk
    obtain rfl : stack' = e :: stack := hstack
    obtain ⟨k, rfl⟩ := Nat.exists_eq_succ_of_ne_zero (Nat.ne_of_gt (Nat.zero_lt_of_lt hk))
    rw [closeOptional]
    dsimp only
    by_cases hskip : e.nodeName ≠ name ∧ e.nodeName ∈ optionalElements
    · rw [if_pos hskip, endWithin_top rfl,
        List.dropWhile_cons_of_pos (by simpa [Skipped] using hskip)]
      exact ih k _ rfl (Nat.lt_of_succ_lt_succ hk)
    · rw [if_neg hskip, List.dropWhile_cons_of_neg (by simpa [Skipped] using hskip)]

/-- What is left to close is on top, or nothing. -/
theorem endWithin_of_top {n : ℕ}
    (hdrop : h.elementStack.dropWhile (Skipped (loc.normalize name)) = last :: below)
    (hlast : last.nodeName = loc.normalize name) :
    endWithin (n + 2) name h = .ok { h with elementStack := below } := by
  have hne : h.elementStack ≠ [] := by
    rintro hnil
    rw [hnil] at hdrop
    cases hdrop
  rw [endWithin]
  dsimp only
  rw [if_neg hne, closeOptional_eq n _ _ _ h rfl (Nat.lt_succ_self _), hdrop]
  exact if_pos hlast

theorem endWithin_of_nil {n : ℕ} (hne : h.elementStack ≠ [])
    (hdrop : h.elementStack.dropWhile (Skipped (loc.normalize name)) = []) :
    endWithin (n + 2) name h = .error (.noSuchElement, { h with elementStack := [] }) := by
  rw [endWithin]
  dsimp only
  rw [if_neg hne, closeOptional_eq n _ _ _ h rfl (Nat.lt_succ_self _), hdrop]
  rfl

/-- The element on top is another one. -/
theorem endWithin_of_mismatch {n : ℕ}
    (hdrop : h.elementStack.dropWhile (Skipped (loc.normalize name)) = last :: below)
    (hlast : last.nodeName ≠ loc.normalize name) :
    endWithin (n + 2) name h =
      recover (endWithin (n + 1)) (loc.normalize name) last
        { h with elementStack := last :: below, errors := h.errors + 1 } := by
  have hne : h.elementStack ≠ [] := by
    rintro hnil
    rw [hnil] at hdrop
    cases hdrop
  rw [endWithin]
  dsimp only
  rw [if_neg hne, closeOptional_eq n _ _ _ h rfl (Nat.lt_succ_self _), hdrop]
  exact if_neg hlast

end HtmlTreeHandler

/-- `HtmlParser.parse`: the nodes of the tree. The handler has no say in what the grammar does, but
for what it throws; so it is told first. -/
def parseTree (doc : Document) (loc : Locale) (str : List Char) :
    Except ParseError (List (Option (Element loc) × Node loc)) := do
  let parsed := htmlGrammar.parse HtmlParser.new str
  let told := match parsed with
    | .ok p => p.delivered
    | .error (_, p) => p.delivered
  let h ← (told.foldlM (HtmlTreeHandler.handle doc) .new).mapError Prod.fst
  let _ ← parsed.mapError Prod.fst
  return h.nodes

end JPype.Html
