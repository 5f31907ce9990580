import JPype.Javadoc.Dom

/-!
# `JavadocTransformer`

`transformMember` turns the documentation of a member into sections for ReStructuredText. The types
of the parameters are read off the signature into a queue, and each parameter that is documented
takes the next one from it.

The node `section` of the workspace is a child of a child of the member, and is here its place: the
index of the list it is in among the children of the member, and its index in this list.
-/

namespace JPype.Javadoc

open Html.HtmlGrammar (trim)
open scoped Foundation.Membership

/-- What `transformMember` wraps into a `JavadocException`. -/
inductive Fault where
  | decode (e : DecodeError)
  /-- `"Unknown item at top level " + name` -/
  | unknownItem (name : Text)
  | nullPointer
  | noSuchElement
  | stringIndexOutOfBounds
  deriving DecidableEq

/-- `Html.decode` -/
def decodeText (s : Text) : Except Fault Text :=
  match Html.decode (s.map Char.toNat) with
  | .ok t => .ok (t.map Char.ofNat)
  | .error e => .error (.decode e)

/-! ### Inline markup -/

/-- `PASS1`, with what comes before and after the text in each format. -/
def pass1Formats : List (Text × Text × Text) :=
  [("cite".toList, "\"".toList, "\"".toList),
    ("code".toList, ":code:`".toList, "`".toList),
    ("pre".toList, ":code:`".toList, "`".toList),
    ("tt".toList, "``".toList, "``".toList),
    ("i".toList, "*".toList, "*".toList),
    ("em".toList, "*".toList, "*".toList),
    ("strong".toList, "**".toList, "**".toList),
    ("b".toList, "**".toList, "**".toList),
    ("sup".toList, " :sup:`".toList, "` ".toList),
    ("sub".toList, " :sub:`".toList, "` ".toList),
    ("small".toList, ":sub:`".toList, "`".toList),
    ("span".toList, [], []),
    ("nop".toList, [], []),
    ("font".toList, [], []),
    ("var".toList, "*".toList, "*".toList)]

section

-- `formatLink` for the class: the text for a link, from its content and `href`
variable (formatLink : Text → Text → Text)

/-- `pass1` at a node, below a parent with this name and these attributes. -/
def pass1 (parent : Text) (parentAttributes : List (Text × Text)) : Node → Outcome
  | .text value => .replace parent [.text value]
  | .element name attributes children =>
    let code := if containsNL children then "codeblock".toList else "code".toList
    let name := if name = "pre".toList then code else name
    if name = "code".toList ∧ (parent = "pre".toList ∨ parent = "blockquote".toList) then
      .replace "codeblock".toList children
    else if name = "codeblock".toList ∧ parent = "pre".toList then
      .replace code children
    else if name = "code".toList ∧ parent = "a".toList then
      .clear "nop".toList
        [.text (formatLink (textContents children) (getAttribute parentAttributes "href".toList))]
    else
      let href := formatLink (textContents children) (getAttribute attributes "href".toList)
      if name = "a".toList ∧ parent = "code".toList then .clear "nop".toList [.text href]
      else if name = "a".toList then .replace parent [.text href]
      else
        match pass1Formats.lookup name with
        | some (before, after) =>
          .replace parent [.text (before ++ trim (textContents children) ++ after)]
        | none => .replace parent [.element name attributes children]

/-! ### The signature -/

/-- What `.` does not stand for in a pattern. -/
def isTerminator (c : Char) : Bool :=
  c ∈ ['\n', '\r', '\u0085', '\u2028', '\u2029']

/-- The text before the last occurrence of a character, and the text after it. -/
def splitLast (c : Char) (s : Text) : Option (Text × Text) :=
  if c ∈ s then some
    ((s.reverse.dropWhile (· ≠ c)).tail.reverse, (s.reverse.takeWhile (· ≠ c)).reverse)
  else none

/-- `m.group(1)` if `ARGS_PATTERN`, `.*\((.*)\).*`, matches: its first part takes as much as it
can, and then the group does. -/
def argsGroup (content : Text) : Option Text :=
  if content.any isTerminator then none
  else do
    let closed ← splitLast ')' content
    let opened ← splitLast '(' closed.1
    return opened.2

/-- The parts of a text between the separators, with what is read of the first one. -/
def splitCommas (part : Text) : Text → List Text
  | ',' :: ' ' :: rest => part :: splitCommas [] rest
  | c :: rest => splitCommas (part ++ [c]) rest
  | [] => [part]

/-- `s.split(", ")`: without the empty parts at the end, unless there is nothing to split. -/
def splitParameters (s : Text) : List Text :=
  let parts := splitCommas [] s
  if parts.length = 1 then parts else parts.rdropWhile List.isEmpty

/-- The types of the parameters in the text of a signature. -/
def signatureTypes (content : Text) : Option (List Text) :=
  (argsGroup content).map fun group ↦
    (splitParameters group).map fun s ↦ s.takeWhile (· ≠ '\u00a0')

/-! ### Details -/

/-- `DETAIL_SECTIONS` -/
def detailSections : List (Text × Text) :=
  [("Author:".toList, "author".toList),
    ("Since:".toList, "since".toList),
    ("Parameters:".toList, "parameters".toList),
    ("Returns:".toList, "returns".toList),
    ("Overrides:".toList, "overrides".toList),
    ("See Also:".toList, "see".toList),
    ("API Note:".toList, "api_note".toList),
    ("Version:".toList, "version".toList),
    ("Type Parameters:".toList, "typeparams".toList),
    ("Specified by:".toList, "specified".toList),
    ("Throws:".toList, "throws".toList),
    ("Implementation Requirements:".toList, "requirements".toList),
    ("Implementation Note:".toList, "impl_note".toList)]

/-- The name of a section, for the text of its `dt`. -/
def sectionName (key : Text) : Text :=
  match detailSections.lookup key with
  | some name => name
  | none => if "See ".toList.isPrefixOf key then "jls".toList else "dt".toList

/-- `Workspace` -/
structure Workspace where
  key : Option Text
  /-- `section`, by its place. -/
  place : Option (ℕ × ℕ)
  types : Option (List Text)

/-- The workspace in a list of details, with the nodes of the member before this list, and the
children of the list that are done. -/
structure Details extends Workspace where
  earlier : List Node
  done : List Node

/-- A node with other children. -/
def Node.onChildren (f : List Node → List Node) : Node → Node
  | .text value => .text value
  | .element name attributes children => .element name attributes (f children)

/-- Changes the section. -/
def Details.onSection (f : Node → Node) (d : Details) : Except Fault Details :=
  match d.place with
  | none => .error .nullPointer
  | some (i, j) =>
    if i = d.earlier.length then .ok { d with done := d.done.modify j f }
    else .ok { d with earlier := d.earlier.modify i (Node.onChildren (·.modify j f)) }

/-- `second.setNodeValue(second.getNodeValue().substring(3))` -/
def removeDash : Node → Except Fault Node
  | .text value =>
    if value.length < 3 then .error .stringIndexOutOfBounds else .ok (.text (value.drop 3))
  | .element .. => .error .nullPointer

/-- What follows the first child, without the dash. -/
def removeFromSecond : List Node → Except Fault (List Node)
  | [] => .error .nullPointer
  | second :: rest => do return (← removeDash second) :: rest

/-- The same, if there is a second child. -/
def removeFromOptional : List Node → Except Fault (List Node)
  | [] => .ok []
  | second :: rest => removeFromSecond (second :: rest)

/-- `ws.types.removeFirst()` -/
def Details.removeFirst (d : Details) : Except Fault (Text × Details) :=
  match d.types with
  | none => .error .nullPointer
  | some [] => .error .noSuchElement
  | some (type :: types) => .ok (type, { d with types := some types })

/-- A `dd` of the parameters. -/
def handleParameter (d : Details) : List Node → Except Fault Details
  | [] => .error .nullPointer
  | first :: siblings => do
    let (type, d) ← d.removeFirst
    let contents ← removeFromSecond siblings
    let elem := Node.element "parameter".toList
      [("name".toList, first.textContent), ("type".toList, type)] contents
    d.onSection (Node.onChildren (· ++ [elem]))

/-- A `dd` of the exceptions. -/
def handleThrows (d : Details) : List Node → Except Fault Details
  | [] => .error .nullPointer
  | first :: siblings => do
    let first := traverseDFS (pass1 formatLink) first
    let contents ← removeFromOptional siblings
    let elem := Node.element "exception".toList [("name".toList, first.textContent)] contents
    d.onSection (Node.onChildren (· ++ [elem]))

/-- `handleDetails` -/
def handleDetails (d : Details) : Node → Except Fault Details
  | .text value => .ok { d with done := d.done ++ [.text value] }
  | .element name attributes children =>
    if name = "dt".toList then
      let name := sectionName (trim (textContents children))
      .ok { d with
        key := some name
        place := some (d.earlier.length, d.done.length)
        done := d.done ++ [.element name attributes []] }
    else if name = "dd".toList then
      match d.key with
      | none => .error .nullPointer
      | some key =>
        if key = "parameters".toList then handleParameter d children
        else if key = "throws".toList then handleThrows formatLink d children
        else
          d.onSection fun node ↦
            (traverseDFS (pass1 formatLink) (node.onChildren (· ++ children))).onChildren
              removeWhitespace
    else .ok { d with done := d.done ++ [.element name attributes children] }

/-! ### Members -/

/-- The nodes of the member that are done. -/
structure Member extends Workspace where
  done : List Node

/-- The name and the attributes of a signature. -/
def IsSignature (name : Text) (attributes : List (Text × Text)) : Prop :=
  name = "pre".toList ∨
    name = "div".toList ∧ getAttribute attributes "class".toList = "member-signature".toList

instance (name : Text) (attributes : List (Text × Text)) :
    Decidable (IsSignature name attributes) :=
  inferInstanceAs (Decidable (_ ∨ _))

/-- `handleMembers` -/
def handleMembers (m : Member) : Node → Except Fault Member
  | .text value => .ok { m with done := m.done ++ [.text value] }
  | .element name attributes children =>
    if name = "h4".toList ∨ name = "h3".toList then
      .ok { m with done := m.done ++ [.element "title".toList attributes children] }
    else if IsSignature name attributes then
      let below := traverseBelow (pass1 formatLink) "signature".toList attributes [] children
      let contents := removeWhitespace below.2
      .ok { m with
        types := (signatureTypes (textContents contents)).or m.types
        done := m.done ++ [.element below.1 attributes contents] }
    else if name = "div".toList then
      .ok { m with done := m.done ++ [.element "description".toList [] children] }
    else if name = "dl".toList then do
      let d ← children.foldlM (handleDetails formatLink) ⟨m.toWorkspace, m.done, []⟩
      return ⟨d.toWorkspace, d.earlier ++ [.element "details".toList attributes d.done]⟩
    else .error (.unknownItem name)

/-- `transformMember`, for the children of the fragment that the member is. -/
def transformMember (nodes : List Node) : Except Fault (List Node) := do
  let nodes ← fixBelow decodeText nodes
  let m ← nodes.foldlM (handleMembers formatLink) ⟨⟨none, none, none⟩, []⟩
  return (traverseBelow (pass1 formatLink) "#document-fragment".toList [] [] m.done).2

end

end JPype.Javadoc
