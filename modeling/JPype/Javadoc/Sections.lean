import JPype.Javadoc.Transformer
import Mathlib.Data.List.Basic

/-!
# The sections of a member

What `transformMember` makes of the items of a member that are not about parameters. The nodes that
it makes are none that `pass1` looks for (`IsInert`), so that the last traversal finds them as they
are.
-/

namespace JPype.Javadoc

open Html.HtmlGrammar (trim)
open scoped Foundation.Membership

/-! ### What is no markup -/

/-- The names that `pass1` looks for. -/
def markup : List Text :=
  ["pre".toList, "code".toList, "codeblock".toList, "a".toList, "blockquote".toList] ++
    pass1Formats.map Prod.fst

/-- The name of an element that `pass1` leaves alone, as a node and as a parent. -/
def IsInert (name : Text) : Prop := name ∉ markup

instance (name : Text) : Decidable (IsInert name) := inferInstanceAs (Decidable (name ∉ markup))

/-- A text, or an element that `pass1` leaves alone. -/
def Node.IsInert : Node → Prop
  | .text _ => True
  | .element name _ _ => Javadoc.IsInert name

variable (formatLink : Text → Text → Text)

section

variable {name : Text} (h : IsInert name)
include h

theorem IsInert.ne {other : Text} (hother : other ∈ markup) : name ≠ other :=
  fun heq ↦ h (heq ▸ hother)

theorem pass1_of_inert (parent : Text) (parentAttributes attributes : List (Text × Text))
    (children : List Node) :
    pass1 formatLink parent parentAttributes (.element name attributes children) =
      .replace parent [.element name attributes children] := by
  have hpre := h.ne (by decide : "pre".toList ∈ markup)
  have hcode := h.ne (by decide : "code".toList ∈ markup)
  have hblock := h.ne (by decide : "codeblock".toList ∈ markup)
  have ha := h.ne (by decide : "a".toList ∈ markup)
  have hlookup : pass1Formats.lookup name = none :=
    List.lookup_eq_none_iff.mpr fun format hformat ↦ bne_iff_ne.mpr
      (h.ne (List.mem_append_right _ (List.mem_map_of_mem hformat)))
  rw [pass1]
  dsimp only
  rw [if_neg hpre, if_neg fun h ↦ hcode h.1, if_neg fun h ↦ hblock h.1, if_neg fun h ↦ hcode h.1,
    if_neg fun h ↦ ha h.1, if_neg ha, hlookup]

/-- Below such a parent, a node is replaced. -/
theorem pass1_below_inert (attributes : List (Text × Text)) (node : Node) :
    ∃ nodes, pass1 formatLink name attributes node = .replace name nodes := by
  have hpre := h.ne (by decide : "pre".toList ∈ markup)
  have hquote := h.ne (by decide : "blockquote".toList ∈ markup)
  have hcode := h.ne (by decide : "code".toList ∈ markup)
  have ha := h.ne (by decide : "a".toList ∈ markup)
  cases node with
  | text value => exact ⟨_, rfl⟩
  | element child attributes' children =>
    rw [pass1]
    dsimp only
    rw [if_neg fun h ↦ h.2.elim hpre hquote, if_neg fun h ↦ hpre h.2, if_neg fun h ↦ ha h.2,
      if_neg fun h ↦ hcode h.2]
    generalize (if child = "pre".toList then _ else child) = tag
    split
    · exact ⟨_, rfl⟩
    · cases pass1Formats.lookup tag with
      | none => exact ⟨_, rfl⟩
      | some format => exact ⟨_, rfl⟩

/-- It keeps its name. -/
theorem traverseBelow_name (attributes : List (Text × Text)) (children done : List Node) :
    (traverseBelow (pass1 formatLink) name attributes done children).1 = name := by
  induction children generalizing done with
  | nil => rfl
  | cons child children ih =>
    obtain ⟨nodes, hnodes⟩ :=
      pass1_below_inert formatLink h attributes (traverseDFS (pass1 formatLink) child)
    rw [traverseBelow, hnodes]
    exact ih _

theorem traverseDFS_of_inert (attributes : List (Text × Text)) (children : List Node) :
    traverseDFS (pass1 formatLink) (.element name attributes children) =
      .element name attributes
        (traverseBelow (pass1 formatLink) name attributes [] children).2 := by
  rw [traverseDFS, traverseBelow_name formatLink h]

end

/-- Nodes that are left alone stay one by one. -/
theorem traverseBelow_of_inert (name : Text) (attributes : List (Text × Text))
    {children : List Node} (h : ∀ child ∈ children, child.IsInert) (done : List Node) :
    traverseBelow (pass1 formatLink) name attributes done children =
      (name, done ++ children.map (traverseDFS (pass1 formatLink))) := by
  induction children generalizing done with
  | nil => rw [traverseBelow, List.map_nil, List.append_nil]
  | cons child children ih =>
    obtain ⟨hchild, hchildren⟩ := List.forall_mem_cons.mp h
    have hstays : pass1 formatLink name attributes (traverseDFS (pass1 formatLink) child) =
        .replace name [traverseDFS (pass1 formatLink) child] := by
      cases child with
      | text value => rfl
      | element name' attributes' children' =>
        rw [traverseDFS_of_inert formatLink hchild, pass1_of_inert formatLink hchild]
    rw [traverseBelow, hstays]
    show traverseBelow _ _ _ _ _ = _
    rw [ih hchildren, List.append_assoc, List.map_cons, List.singleton_append]

/-! ### Sections -/

/-- What is in a section for parameters. -/
def Node.parameters? : Node → Option (List Node)
  | .text _ => none
  | .element name _ children => if name = "parameters".toList then some children else none

/-- What is in the sections for parameters in a list of details. -/
def parameterSections (details : List Node) : List (List Node) :=
  details.filterMap Node.parameters?

/-- What is in the sections for parameters of an item of a member. -/
def Node.sections : Node → List (List Node)
  | .text _ => []
  | .element name _ children =>
    if name = "details".toList then parameterSections children else []

/-- What is in the sections for parameters of a member. -/
def memberSections (nodes : List Node) : List (List Node) :=
  nodes.flatMap Node.sections

/-- What a section for exceptions has for one of them: its name, and a text with a dash if there is
one. -/
def IsThrown (children : List Node) : Prop :=
  ∃ first rest, children = first :: rest ∧
    (rest = [] ∨ ∃ text more, rest = .text (" - ".toList ++ text) :: more)

/-- Items of a list of details for other things than parameters, after a `dt` for a section of this
name, or before the first one. -/
inductive Sections : Option Text → List Node → Prop
  | nil {section?} : Sections section? []
  | text {section? value rest} : Sections section? rest → Sections section? (.text value :: rest)
  | dt {section? attributes children rest} :
    trim (textContents children) ≠ "Parameters:".toList →
    Sections (some (sectionName (trim (textContents children)))) rest →
    Sections section? (.element "dt".toList attributes children :: rest)
  | dd {name attributes children rest} :
    (name = "throws".toList → IsThrown children) → Sections (some name) rest →
    Sections (some name) (.element "dd".toList attributes children :: rest)

theorem mem_detailSections {key name : Text} (h : detailSections.lookup key = some name) :
    (key, name) ∈ detailSections := by
  obtain ⟨l, r, heq, -⟩ := List.lookup_eq_some_iff.mp h
  exact heq ▸ List.mem_append_right _ List.mem_cons_self

theorem isInert_sectionName (key : Text) : IsInert (sectionName key) := by
  have hnames : ∀ entry ∈ detailSections, IsInert entry.2 := by decide
  rw [sectionName]
  cases hlookup : detailSections.lookup key with
  | some name => exact hnames _ (mem_detailSections hlookup)
  | none =>
    dsimp only
    split <;> decide

/-- No other key is for parameters. -/
theorem sectionName_ne {key : Text} (h : key ≠ "Parameters:".toList) :
    sectionName key ≠ "parameters".toList := by
  have hkeys : ∀ entry ∈ detailSections, entry.2 = "parameters".toList →
      entry.1 = "Parameters:".toList := by
    decide
  rw [sectionName]
  cases hlookup : detailSections.lookup key with
  | some name => exact fun hname ↦ h (hkeys _ (mem_detailSections hlookup) hname)
  | none =>
    dsimp only
    split <;> decide

section

variable {σ ε : Type} {α : Type} {step : σ → α → Except ε σ} {s s' : σ}

theorem foldlM_cons_ok {x : α} (h : step s x = .ok s') (xs : List α) :
    (x :: xs).foldlM step s = xs.foldlM step s' := by
  rw [List.foldlM_cons, h]
  rfl

theorem foldlM_append_ok {xs : List α} (h : xs.foldlM step s = .ok s') (ys : List α) :
    (xs ++ ys).foldlM step s = ys.foldlM step s' := by
  rw [List.foldlM_append, h]
  rfl

end

theorem removeFromSecond_dash (text : Text) (more : List Node) :
    removeFromSecond (.text (" - ".toList ++ text) :: more) = .ok (.text text :: more) := by
  rw [removeFromSecond, removeDash, if_neg]
  · rfl
  · rw [List.length_append, show " - ".toList.length = 3 from by decide]
    omega

namespace Details

/-- In a section, with what comes before and after it. -/
def inSection (d : Details) (base : List Node) (name : Text) (attributes : List (Text × Text))
    (children after : List Node) : Details :=
  { d with
    key := some name
    place := some (d.earlier.length, base.length)
    done := base ++ .element name attributes children :: after }

variable {d : Details} {base : List Node} {name : Text} {attributes : List (Text × Text)}
  {children after : List Node}

theorem modify_length {α : Type} (l : List α) (x : α) (r : List α) (f : α → α) :
    (l ++ x :: r).modify l.length f = l ++ f x :: r := by
  induction l with
  | nil => rfl
  | cons y l ih => rw [List.cons_append, List.length_cons, List.modify_succ_cons, ih,
      List.cons_append]

theorem onSection_inSection {f : Node → Node} {children' : List Node}
    (hf : f (.element name attributes children) = .element name attributes children') :
    (d.inSection base name attributes children after).onSection f =
      .ok (d.inSection base name attributes children' after) := by
  show (if d.earlier.length = d.earlier.length then _ else _) = _
  rw [if_pos rfl, inSection, modify_length, hf]
  rfl

theorem handle_dt (d : Details) (attributes : List (Text × Text)) (children : List Node) :
    handleDetails formatLink d (.element "dt".toList attributes children) =
      .ok (d.inSection d.done (sectionName (trim (textContents children))) attributes [] []) := by
  rw [handleDetails, if_pos rfl]
  rfl

theorem handle_text (value : Text) :
    handleDetails formatLink (d.inSection base name attributes children after) (.text value) =
      .ok (d.inSection base name attributes children (after ++ [.text value])) := by
  rw [handleDetails]
  simp [inSection]

/-- What belongs to a section changes only what is in it. -/
theorem handle_dd (hinert : IsInert name) (hname : name ≠ "parameters".toList)
    {attributes' : List (Text × Text)} {items : List Node}
    (hthrown : name = "throws".toList → IsThrown items) (d : Details) (base : List Node)
    (attributes : List (Text × Text)) (children after : List Node) :
    ∃ children', handleDetails formatLink (d.inSection base name attributes children after)
        (.element "dd".toList attributes' items) =
      .ok (d.inSection base name attributes children' after) := by
  rw [handleDetails, if_neg (by decide), if_pos rfl]
  show ∃ children', (if name = "parameters".toList then _ else _) = _
  rw [if_neg hname]
  split
  · next hthrows =>
    obtain ⟨first, rest, rfl, hrest⟩ := hthrown hthrows
    obtain ⟨contents, hcontents⟩ : ∃ contents, removeFromOptional rest = .ok contents := by
      rcases hrest with rfl | ⟨text, more, rfl⟩
      · exact ⟨[], rfl⟩
      · exact ⟨.text text :: more, removeFromSecond_dash text more⟩
    rw [handleThrows, hcontents]
    exact ⟨_, onSection_inSection rfl⟩
  · have hchanged : (traverseDFS (pass1 formatLink) (.element name attributes
          (children ++ items))).onChildren removeWhitespace =
        .element name attributes (removeWhitespace
          (traverseBelow (pass1 formatLink) name attributes [] (children ++ items)).2) := by
      rw [traverseDFS_of_inert formatLink hinert]
      rfl
    exact ⟨_, onSection_inSection hchanged⟩

end Details

/-- Nodes that are left alone, with no section for parameters. -/
structure Quiet (nodes : List Node) : Prop where
  isInert : ∀ node ∈ nodes, node.IsInert
  parameterSections : parameterSections nodes = []

theorem Quiet.append {nodes nodes' : List Node} (h : Quiet nodes) (h' : Quiet nodes') :
    Quiet (nodes ++ nodes') where
  isInert := List.forall_mem_append.mpr ⟨h.isInert, h'.isInert⟩
  parameterSections := by
    rw [Javadoc.parameterSections, List.filterMap_append]
    exact List.append_eq_nil_iff.mpr ⟨h.parameterSections, h'.parameterSections⟩

theorem quiet_nil : Quiet [] where
  isInert := List.forall_mem_nil _
  parameterSections := rfl

theorem quiet_text (value : Text) : Quiet [.text value] where
  isInert := List.forall_mem_singleton.mpr trivial
  parameterSections := rfl

theorem quiet_element {name : Text} (hinert : IsInert name) (hname : name ≠ "parameters".toList)
    (attributes : List (Text × Text)) (children : List Node) :
    Quiet [.element name attributes children] where
  isInert := List.forall_mem_singleton.mpr hinert
  parameterSections := List.filterMap_cons_none (if_neg hname)

/-- Once in a section, the items of a list of details only change what comes from there on. -/
theorem Sections.run {name : Text} {items : List Node} (h : Sections (some name) items)
    (hinert : IsInert name) (hname : name ≠ "parameters".toList) (d : Details) (base : List Node)
    (attributes : List (Text × Text)) (children : List Node) {after : List Node}
    (hafter : Quiet after) :
    ∃ d', items.foldlM (handleDetails formatLink)
        (d.inSection base name attributes children after) = .ok d' ∧ d'.earlier = d.earlier ∧
          d'.types = d.types ∧
      ∃ new, d'.done = base ++ new ∧ Quiet new := by
  generalize hsection : some name = section? at h
  induction h generalizing name base attributes children after with
  | nil =>
    exact ⟨_, rfl, rfl, rfl, _, rfl,
      (quiet_element hinert hname attributes children).append hafter⟩
  | text _ ih =>
    rw [foldlM_cons_ok (Details.handle_text formatLink _)]
    exact ih hinert hname base attributes children (hafter.append (quiet_text _)) hsection
  | dt hkey _ ih =>
    rw [foldlM_cons_ok (Details.handle_dt formatLink _ _ _)]
    obtain ⟨d', hd', hearlier, htypes, new, hdone, hnew⟩ :=
      ih (isInert_sectionName _) (sectionName_ne hkey)
        (base ++ .element name attributes children :: after) _ [] quiet_nil rfl
    exact ⟨d', hd', hearlier, htypes, _, hdone.trans (List.append_assoc _ _ _),
      ((quiet_element hinert hname attributes children).append hafter).append hnew⟩
  | dd hthrown _ ih =>
    obtain rfl := Option.some.inj hsection
    obtain ⟨children', hchildren'⟩ :=
      Details.handle_dd formatLink hinert hname hthrown d base attributes children after
    rw [foldlM_cons_ok hchildren']
    exact ih hinert hname base attributes children' hafter rfl

/-- Items that begin with a section of their own are appended. -/
theorem Sections.run_none {items : List Node} (h : Sections none items) (d : Details) :
    ∃ d', items.foldlM (handleDetails formatLink) d = .ok d' ∧ d'.earlier = d.earlier ∧
      d'.types = d.types ∧ ∃ new, d'.done = d.done ++ new ∧ Quiet new := by
  generalize hsection : none = section? at h
  induction h generalizing d with
  | nil => exact ⟨d, rfl, rfl, rfl, [], (List.append_nil _).symm, quiet_nil⟩
  | @text _ value rest _ ih =>
    have hstep : handleDetails formatLink d (.text value) =
        .ok { d with done := d.done ++ [.text value] } := rfl
    rw [foldlM_cons_ok hstep]
    obtain ⟨d', hd', hearlier, htypes, new, hdone, hnew⟩ := ih _ hsection
    exact ⟨d', hd', hearlier, htypes, .text value :: new, by simp [hdone],
      (quiet_text value).append hnew⟩
  | dt hkey hrest _ =>
    rw [foldlM_cons_ok (Details.handle_dt formatLink _ _ _)]
    exact hrest.run formatLink (isInert_sectionName _) (sectionName_ne hkey) d d.done _ []
      quiet_nil
  | dd => exact absurd hsection (Option.some_ne_none _).symm

/-! ### Items -/

/-- An item of a member beside its signature and the details of its parameters. -/
inductive IsItem : Node → Prop
  | text (value : Text) : IsItem (.text value)
  | title {name attributes children} : name = "h4".toList ∨ name = "h3".toList →
    IsItem (.element name attributes children)
  | description {attributes children} :
    getAttribute attributes "class".toList ≠ "member-signature".toList →
    IsItem (.element "div".toList attributes children)
  | details {attributes children} : Sections none children →
    IsItem (.element "dl".toList attributes children)

/-- A node that is left alone, with no section for parameters. -/
def Node.IsPlain : Node → Prop
  | .text _ => True
  | .element name _ children =>
    Javadoc.IsInert name ∧ (name = "details".toList → Quiet children)

theorem Node.IsPlain.isInert {node : Node} (h : node.IsPlain) : node.IsInert := by
  cases node with
  | text value => exact trivial
  | element name attributes children => exact h.1

theorem IsItem.handle {item : Node} (h : IsItem item) (m : Member) :
    ∃ m' node, handleMembers formatLink m item = .ok m' ∧ m'.types = m.types ∧
      m'.done = m.done ++ [node] ∧ node.IsPlain := by
  cases h with
  | text value => exact ⟨_, _, rfl, rfl, rfl, trivial⟩
  | title hname =>
    rw [handleMembers, if_pos hname]
    exact ⟨_, _, rfl, rfl, rfl, by decide, fun h ↦ absurd h (by decide)⟩
  | description hclass =>
    rw [handleMembers, if_neg (by decide), if_neg, if_pos rfl]
    · exact ⟨_, _, rfl, rfl, rfl, by decide, fun h ↦ absurd h (by decide)⟩
    · exact fun h ↦ h.elim (by decide) fun h ↦ hclass h.2
  | details hsections =>
    obtain ⟨d, hd, hearlier, htypes, new, hdone, hnew⟩ :=
      hsections.run_none formatLink ⟨m.toWorkspace, m.done, []⟩
    rw [handleMembers, if_neg (by decide), if_neg, if_neg (by decide), if_pos rfl, hd]
    · refine ⟨_, .element "details".toList _ d.done, rfl, htypes, by rw [hearlier], by decide, ?_⟩
      rw [hdone]
      exact fun _ ↦ hnew
    · exact fun h ↦ h.elim (by decide) fun h ↦ absurd h.1 (by decide)

theorem run_items {items : List Node} (h : ∀ item ∈ items, IsItem item) (m : Member) :
    ∃ m' new, items.foldlM (handleMembers formatLink) m = .ok m' ∧ m'.types = m.types ∧
      m'.done = m.done ++ new ∧ ∀ node ∈ new, node.IsPlain := by
  induction items generalizing m with
  | nil => exact ⟨m, [], rfl, rfl, (List.append_nil _).symm, by simp⟩
  | cons item items ih =>
    obtain ⟨hitem, hitems⟩ := List.forall_mem_cons.mp h
    obtain ⟨m', node, hm', htypes, hdone, hnode⟩ := hitem.handle formatLink m
    obtain ⟨m'', new, hm'', htypes', hdone', hnew⟩ := ih hitems m'
    rw [foldlM_cons_ok hm', hm'']
    exact ⟨m'', node :: new, rfl, htypes'.trans htypes, by simp [hdone', hdone],
      List.forall_mem_cons.mpr ⟨hnode, hnew⟩⟩

/-! ### The last traversal -/

theorem parameters?_traverseDFS {node : Node} (h : node.IsInert) (hnone : node.parameters? = none) :
    (traverseDFS (pass1 formatLink) node).parameters? = none := by
  cases node with
  | text value => rfl
  | element name attributes children =>
    rw [traverseDFS_of_inert formatLink h]
    by_cases hname : name = "parameters".toList
    · rw [Node.parameters?, if_pos hname] at hnone
      exact absurd hnone (Option.some_ne_none _)
    · exact if_neg hname

theorem Quiet.parameterSections_map {nodes : List Node} (h : Quiet nodes) :
    Javadoc.parameterSections (nodes.map (traverseDFS (pass1 formatLink))) = [] := by
  rw [Javadoc.parameterSections, List.filterMap_map, List.filterMap_eq_nil_iff]
  exact fun node hnode ↦ parameters?_traverseDFS formatLink (h.isInert node hnode)
    (List.filterMap_eq_nil_iff.mp h.parameterSections node hnode)

theorem Node.IsPlain.sections_traverseDFS {node : Node} (h : node.IsPlain) :
    (traverseDFS (pass1 formatLink) node).sections = [] := by
  cases node with
  | text value => rfl
  | element name attributes children =>
    rw [traverseDFS_of_inert formatLink h.1, sections]
    split
    · next hname =>
      rw [traverseBelow_of_inert formatLink _ _ (h.2 hname).isInert]
      exact (h.2 hname).parameterSections_map formatLink
    · rfl

theorem memberSections_map {nodes : List Node} (h : ∀ node ∈ nodes, node.IsPlain) :
    memberSections (nodes.map (traverseDFS (pass1 formatLink))) = [] := by
  rw [memberSections, List.flatMap_map, List.flatMap_eq_nil_iff]
  exact fun node hnode ↦ (h node hnode).sections_traverseDFS formatLink

/-- Details with one section for parameters, which is left alone with all that is in it. -/
theorem sections_traverseDFS {attributes attributes' : List (Text × Text)}
    {before after params : List Node} (hbefore : Quiet before) (hafter : Quiet after)
    (hparams : ∀ param ∈ params, param.IsInert) :
    (traverseDFS (pass1 formatLink) (.element "details".toList attributes
      (before ++ .element "parameters".toList attributes' params :: after))).sections =
        [params.map (traverseDFS (pass1 formatLink))] := by
  have hinert : ∀ node ∈ before ++ .element "parameters".toList attributes' params :: after,
      node.IsInert :=
    List.forall_mem_append.mpr ⟨hbefore.isInert, List.forall_mem_cons.mpr
      ⟨(by decide : IsInert "parameters".toList), hafter.isInert⟩⟩
  have hdetails : IsInert "details".toList := by decide
  have hparameters : IsInert "parameters".toList := by decide
  have hsome : ∀ children, (Node.element "parameters".toList attributes' children).parameters? =
      some children := fun _ ↦ by rw [Node.parameters?, if_pos rfl]
  rw [traverseDFS_of_inert formatLink hdetails, traverseBelow_of_inert formatLink _ _ hinert,
    Node.sections, if_pos rfl, List.nil_append, List.map_append, List.map_cons,
    traverseDFS_of_inert formatLink hparameters, traverseBelow_of_inert formatLink _ _ hparams,
    parameterSections, List.filterMap_append, ← parameterSections,
    hbefore.parameterSections_map formatLink, List.nil_append, List.nil_append,
    List.filterMap_cons_some (hsome _), ← parameterSections,
    hafter.parameterSections_map formatLink]

end JPype.Javadoc
