import JPype.Javadoc.Sections
import JPype.Javadoc.Signature
import Mathlib.Data.List.Perm.Subperm

/-!
# The parameters of a member

The types are taken from the queue in the order of what is documented, whatever its names. So the
parameters get their types if the documented ones, in order, have the types of the first parameters
of the signature, and else some of them get the type of another one (`attached_iff`).
-/

namespace JPype.Javadoc

open Html.HtmlGrammar (trim)
open scoped Foundation.Membership

/-! ### What is documented -/

/-- A parameter that is documented: a `dd` with its name, in a `code`, and a text after a dash. -/
structure Documented where
  attributes : List (Text × Text)
  codeAttributes : List (Text × Text)
  nameNodes : List Node
  text : Text
  more : List Node

namespace Documented

def name (d : Documented) : Text := textContents d.nameNodes

def node (d : Documented) : Node :=
  .element "dd".toList d.attributes
    (.element "code".toList d.codeAttributes d.nameNodes ::
      .text (" - ".toList ++ d.text) :: d.more)

/-- What it should become, with this type. -/
def parameter (d : Documented) (type : Text) : Node :=
  .element "parameter".toList [("name".toList, d.name), ("type".toList, type)]
    (.text d.text :: d.more)

end Documented

/-- A text, or a parameter that is documented. -/
abbrev Entry := Text ⊕ Documented

def Entry.node : Entry → Node
  | .inl value => .text value
  | .inr d => d.node

/-- What the entries document, in order. -/
def documented (entries : List Entry) : List Documented :=
  entries.filterMap Sum.getRight?

variable (formatLink : Text → Text → Text)

/-- A member with its signature, and details that document some of its parameters. -/
structure MemberDoc where
  front : List Node
  middle : List Node
  back : List Node
  isItem : ∀ item ∈ front ++ (middle ++ back), IsItem item
  signature : Text
  attributes : List (Text × Text)
  children : List Node
  isSignature : IsSignature signature attributes
  params : List Parameter
  lists : Lists (textContents (signatureContents formatLink attributes children)) params
  dlAttributes : List (Text × Text)
  before : List Node
  before_sections : Sections none before
  dtAttributes : List (Text × Text)
  label : List Node
  label_eq : trim (textContents label) = "Parameters:".toList
  entries : List Entry
  nodup : ((documented entries).map Documented.name).Nodup
  mem_params : ∀ d ∈ documented entries, d.name ∈ params.map Parameter.name
  after : List Node
  after_sections : Sections none after

namespace MemberDoc

variable {formatLink} (m : MemberDoc formatLink)

/-- The nodes of the member. -/
def nodes : List Node :=
  m.front ++ .element m.signature m.attributes m.children ::
    (m.middle ++ .element "dl".toList m.dlAttributes (m.before ++
      .element "dt".toList m.dtAttributes m.label :: (m.entries.map Entry.node ++ m.after)) ::
        m.back)

/-- The text of the signature. -/
def content : Text := textContents (signatureContents formatLink m.attributes m.children)

/-- The type that the signature gives to a parameter. -/
def typeOf (name : Text) : Text :=
  ((m.params.find? fun p ↦ p.name = name).map Parameter.type).getD []

/-- The member is transformed, and its parameters are attached to the types that the signature gives
them, in the order of the documentation. -/
def Attached (nodes : List Node) : Prop :=
  ∃ result, transformMember formatLink nodes = .ok result ∧
    memberSections result = [(documented m.entries).map fun d ↦
      traverseDFS (pass1 formatLink) (d.parameter (m.typeOf d.name))]

end MemberDoc

/-! ### Taking the types -/

theorem removeFirst_inSection {d : Details} {type : Text} {types : List Text}
    (htypes : d.types = some (type :: types)) (base : List Node) (name : Text)
    (attributes : List (Text × Text)) (children after : List Node) :
    (d.inSection base name attributes children after).removeFirst =
      .ok (type, { d with types := some types }.inSection base name attributes children after) := by
  have hsection : (d.inSection base name attributes children after).types =
      some (type :: types) := htypes
  rw [Details.removeFirst, hsection]
  rfl

theorem handle_documented {d : Details} {type : Text} {types : List Text}
    (htypes : d.types = some (type :: types)) (base : List Node) (attributes : List (Text × Text))
    (children after : List Node) (doc : Documented) :
    handleDetails formatLink (d.inSection base "parameters".toList attributes children after)
        doc.node =
      .ok ({ d with types := some types }.inSection base "parameters".toList attributes
        (children ++ [doc.parameter type]) after) := by
  rw [Documented.node, handleDetails, if_neg (by decide), if_pos rfl]
  show (if "parameters".toList = "parameters".toList then _ else _) = _
  rw [if_pos rfl, handleParameter]
  simp only [removeFirst_inSection htypes, removeFromSecond_dash, bind, Except.bind]
  exact Details.onSection_inSection rfl

/-- Each parameter that is documented takes the next type. -/
theorem run_entries (entries : List Entry) (d : Details)
    (hlength : (documented entries).length ≤ (d.types.getD []).length) (base : List Node)
    (attributes : List (Text × Text)) (children : List Node) {after : List Node}
    (hafter : Quiet after) :
    ∃ d' new, (entries.map Entry.node).foldlM (handleDetails formatLink)
        (d.inSection base "parameters".toList attributes children after) = .ok d' ∧
      d'.earlier = d.earlier ∧ Quiet new ∧
      d'.done = base ++ .element "parameters".toList attributes (children ++
        List.zipWith Documented.parameter (documented entries) (d.types.getD [])) :: new := by
  induction entries generalizing d children after with
  | nil => exact ⟨_, after, rfl, rfl, hafter, by simp [documented, Details.inSection]⟩
  | cons entry entries ih =>
    cases entry with
    | inl value =>
      rw [List.map_cons, Entry.node, foldlM_cons_ok (Details.handle_text formatLink value)]
      exact ih d hlength children (hafter.append (quiet_text value))
    | inr doc =>
      have hcons : documented (.inr doc :: entries) = doc :: documented entries := rfl
      rw [hcons, List.length_cons] at hlength
      cases htypes : d.types.getD [] with
      | nil =>
        rw [htypes, List.length_nil] at hlength
        omega
      | cons type types =>
        rw [htypes, List.length_cons] at hlength
        have hsome : d.types = some (type :: types) := by
          cases hd : d.types with
          | none => simp [hd] at htypes
          | some types' => simpa [hd] using htypes
        rw [List.map_cons, Entry.node,
          foldlM_cons_ok (handle_documented formatLink hsome base attributes children after doc)]
        obtain ⟨d', new, hd', hearlier, hnew, hdone⟩ :=
          ih { d with types := some types } (Nat.le_of_succ_le_succ hlength)
            (children ++ [doc.parameter type]) hafter
        refine ⟨d', new, hd', hearlier, hnew, hdone.trans ?_⟩
        rw [hcons, List.zipWith_cons_cons, List.append_assoc, List.singleton_append,
          Option.getD_some]

/-- Without types, the first parameter that is documented is an error. -/
theorem run_entries_error (entries : List Entry) (hne : documented entries ≠ []) (d : Details)
    (htypes : d.types = none) (base : List Node) (attributes : List (Text × Text))
    (children after : List Node) :
    (entries.map Entry.node).foldlM (handleDetails formatLink)
      (d.inSection base "parameters".toList attributes children after) = .error .nullPointer := by
  induction entries generalizing after with
  | nil => exact absurd rfl hne
  | cons entry entries ih =>
    cases entry with
    | inl value =>
      rw [List.map_cons, Entry.node, foldlM_cons_ok (Details.handle_text formatLink value)]
      exact ih hne _
    | inr doc =>
      have hsection : (d.inSection base "parameters".toList attributes children after).types =
          none := htypes
      have hstep : handleDetails formatLink
          (d.inSection base "parameters".toList attributes children after) doc.node =
            .error .nullPointer := by
        rw [Documented.node, handleDetails, if_neg (by decide), if_pos rfl]
        show (if "parameters".toList = "parameters".toList then _ else _) = _
        rw [if_pos rfl, handleParameter, Details.removeFirst, hsection]
        rfl
      rw [List.map_cons, Entry.node, List.foldlM_cons, hstep]
      rfl

theorem parameter_inj {doc : Documented} {type type' : Text}
    (h : traverseDFS (pass1 formatLink) (doc.parameter type) =
      traverseDFS (pass1 formatLink) (doc.parameter type')) : type = type' := by
  have hinert : IsInert "parameter".toList := by decide
  rw [Documented.parameter, Documented.parameter, traverseDFS_of_inert formatLink hinert,
    traverseDFS_of_inert formatLink hinert] at h
  have hattributes := (Node.element.inj h).2.1
  exact (Prod.mk.inj (List.cons.inj (List.cons.inj hattributes).2).1).2

/-- Taking the types in order is right if these are the types of what is documented. -/
theorem zipWith_eq_iff {docs : List Documented} {types : List Text} (typeOf : Text → Text)
    (hlength : docs.length ≤ types.length) :
    (List.zipWith Documented.parameter docs types).map (traverseDFS (pass1 formatLink)) =
        docs.map (fun doc ↦ traverseDFS (pass1 formatLink) (doc.parameter (typeOf doc.name))) ↔
      ∀ (i : ℕ) (doc : Documented) (type : Text), docs[i]? = some doc → types[i]? = some type →
        typeOf doc.name = type := by
  induction docs generalizing types with
  | nil => simp
  | cons doc docs ih =>
    cases types with
    | nil => exact absurd hlength (by simp)
    | cons type types =>
      rw [List.zipWith_cons_cons, List.map_cons, List.map_cons, List.cons.injEq,
        ih (Nat.le_of_succ_le_succ hlength)]
      constructor
      · rintro ⟨hhead, htail⟩ i doc' type' hdoc htype
        cases i with
        | zero =>
          obtain rfl := Option.some.inj hdoc
          obtain rfl := Option.some.inj htype
          exact (parameter_inj formatLink hhead).symm
        | succ i => exact htail i doc' type' hdoc htype
      · intro h
        refine ⟨?_, fun i doc' type' hdoc htype ↦ h (i + 1) doc' type' hdoc htype⟩
        rw [h 0 doc type rfl rfl]

namespace MemberDoc

variable {formatLink} {m : MemberDoc formatLink}

/-- The list of details, with the types in the workspace. -/
theorem handle_dl {member : Member}
    (hlength : (documented m.entries).length ≤ (member.types.getD []).length) :
    ∃ member' before after, handleMembers formatLink member
        (.element "dl".toList m.dlAttributes (m.before ++
          .element "dt".toList m.dtAttributes m.label ::
            (m.entries.map Entry.node ++ m.after))) = .ok member' ∧
      Quiet before ∧ Quiet after ∧
      member'.done = member.done ++ [.element "details".toList m.dlAttributes
        (before ++ .element "parameters".toList m.dtAttributes
          (List.zipWith Documented.parameter (documented m.entries) (member.types.getD [])) ::
            after)] := by
  obtain ⟨d₁, hd₁, hearlier₁, htypes₁, before, hdone₁, hbefore⟩ :=
    m.before_sections.run_none formatLink ⟨member.toWorkspace, member.done, []⟩
  rw [List.nil_append] at hdone₁
  have hname : sectionName (trim (textContents m.label)) = "parameters".toList := by
    rw [m.label_eq]
    decide
  have hdt := Details.handle_dt formatLink d₁ m.dtAttributes m.label
  rw [hname] at hdt
  obtain ⟨d₂, texts, hd₂, hearlier₂, htexts, hdone₂⟩ :=
    run_entries formatLink m.entries d₁ (by rwa [htypes₁]) d₁.done m.dtAttributes []
      quiet_nil
  obtain ⟨d₃, hd₃, hearlier₃, -, rest, hdone₃, hrest⟩ := m.after_sections.run_none formatLink d₂
  have hrun : (m.before ++ .element "dt".toList m.dtAttributes m.label ::
      (m.entries.map Entry.node ++ m.after)).foldlM (handleDetails formatLink)
        ⟨member.toWorkspace, member.done, []⟩ = .ok d₃ := by
    rw [foldlM_append_ok hd₁, foldlM_cons_ok hdt, foldlM_append_ok hd₂, hd₃]
  refine ⟨⟨d₃.toWorkspace, d₃.earlier ++ [.element "details".toList m.dlAttributes d₃.done]⟩,
    before, texts ++ rest, ?_, hbefore, htexts.append hrest, ?_⟩
  · rw [handleMembers, if_neg (by decide), if_neg, if_neg (by decide), if_pos rfl, hrun]
    · rfl
    · exact fun h ↦ h.elim (by decide) fun h ↦ absurd h.1 (by decide)
  · rw [hearlier₃, hearlier₂, hearlier₁, hdone₃, hdone₂, hdone₁, htypes₁]
    simp

/-- Without types in the workspace, the list of details fails if it documents a parameter. -/
theorem handle_dl_error (hne : documented m.entries ≠ []) {member : Member}
    (htypes : member.types = none) :
    handleMembers formatLink member
      (.element "dl".toList m.dlAttributes (m.before ++
        .element "dt".toList m.dtAttributes m.label ::
          (m.entries.map Entry.node ++ m.after))) = .error .nullPointer := by
  obtain ⟨d₁, hd₁, -, htypes₁, -⟩ :=
    m.before_sections.run_none formatLink ⟨member.toWorkspace, member.done, []⟩
  have hdt := Details.handle_dt formatLink d₁ m.dtAttributes m.label
  rw [m.label_eq, show sectionName "Parameters:".toList = "parameters".toList from by decide] at hdt
  have hentries := run_entries_error formatLink m.entries hne d₁ (htypes₁.trans htypes) d₁.done
    m.dtAttributes [] []
  have hrun : (m.before ++ .element "dt".toList m.dtAttributes m.label ::
      (m.entries.map Entry.node ++ m.after)).foldlM (handleDetails formatLink)
        ⟨member.toWorkspace, member.done, []⟩ = .error .nullPointer := by
    rw [foldlM_append_ok hd₁, foldlM_cons_ok hdt, List.foldlM_append, hentries]
    rfl
  rw [handleMembers, if_neg (by decide), if_neg, if_neg (by decide), if_pos rfl, hrun]
  · rfl
  · exact fun h ↦ h.elim (by decide) fun h ↦ absurd h.1 (by decide)

theorem handle_signature (m : MemberDoc formatLink) {member : Member}
    (htypes : member.types = none) :
    ∃ member', handleMembers formatLink member (.element m.signature m.attributes m.children) =
        .ok member' ∧ member'.types = signatureTypes m.content ∧
      member'.done = member.done ++ [.element "signature".toList m.attributes
        (signatureContents formatLink m.attributes m.children)] := by
  have hsignature : IsInert "signature".toList := by decide
  have htitle : ¬(m.signature = "h4".toList ∨ m.signature = "h3".toList) := by
    rcases m.isSignature with hname | ⟨hname, -⟩ <;> rw [hname] <;> decide
  rw [handleMembers, if_neg htitle, if_pos m.isSignature]
  refine ⟨_, rfl, ?_, ?_⟩
  · show (signatureTypes m.content).or member.types = _
    rw [htypes, Option.or_none]
  · show _ ++ [Node.element (traverseBelow _ _ _ _ _).1 _ _] = _
    rw [traverseBelow_name formatLink hsignature]
    rfl

/-- Up to the details, the member has plain nodes, and the types of its signature. -/
theorem run_signature (m : MemberDoc formatLink) :
    ∃ member, (m.front ++ .element m.signature m.attributes m.children :: m.middle).foldlM
        (handleMembers formatLink) ⟨⟨none, none, none⟩, []⟩ = .ok member ∧
      member.types = signatureTypes m.content ∧ ∀ node ∈ member.done, node.IsPlain := by
  obtain ⟨hfront, hrest⟩ := List.forall_mem_append.mp m.isItem
  obtain ⟨hmiddle, -⟩ := List.forall_mem_append.mp hrest
  obtain ⟨member₁, new₁, hrun₁, htypes₁, hdone₁, hnew₁⟩ :=
    run_items formatLink hfront ⟨⟨none, none, none⟩, []⟩
  obtain ⟨member', hsignature, htypes', hdone'⟩ := m.handle_signature htypes₁
  obtain ⟨member₂, new₂, hrun₂, htypes₂, hdone₂, hnew₂⟩ := run_items formatLink hmiddle member'
  refine ⟨member₂, ?_, htypes₂.trans htypes', ?_⟩
  · rw [foldlM_append_ok hrun₁, foldlM_cons_ok hsignature, hrun₂]
  · have hplain : (Node.element "signature".toList m.attributes
        (signatureContents formatLink m.attributes m.children)).IsPlain :=
      ⟨by decide, fun h ↦ absurd h (by decide)⟩
    rw [hdone₂, hdone', hdone₁]
    simp only [List.nil_append, List.forall_mem_append, List.forall_mem_singleton]
    exact ⟨⟨hnew₁, hplain⟩, hnew₂⟩

/-- The nodes of a member are transformed up to the last traversal. -/
theorem transformMember_eq {parsed : List Node} (h : fixBelow decodeText parsed = .ok m.nodes) :
    transformMember formatLink parsed =
      (m.nodes.foldlM (handleMembers formatLink) ⟨⟨none, none, none⟩, []⟩).map fun member ↦
        (traverseBelow (pass1 formatLink) "#document-fragment".toList [] [] member.done).2 := by
  rw [transformMember, h]
  rfl

/-- With enough types, the parameters that are documented get them in order. -/
theorem exists_result {parsed : List Node} (h : fixBelow decodeText parsed = .ok m.nodes)
    (hlength : (documented m.entries).length ≤ ((signatureTypes m.content).getD []).length) :
    ∃ result, transformMember formatLink parsed = .ok result ∧
      memberSections result = [(List.zipWith Documented.parameter (documented m.entries)
        ((signatureTypes m.content).getD [])).map (traverseDFS (pass1 formatLink))] := by
  obtain ⟨member, hrun, htypes, hplain⟩ := m.run_signature
  rw [← htypes] at hlength ⊢
  obtain ⟨member', before, after, hdl, hbefore, hafter, hdone⟩ := m.handle_dl hlength
  have hback : ∀ item ∈ m.back, IsItem item := fun item hitem ↦
    m.isItem item (List.mem_append_right _ (List.mem_append_right _ hitem))
  obtain ⟨member'', new, hrun'', -, hdone'', hnew⟩ := run_items formatLink hback member'
  have hnodes : m.nodes.foldlM (handleMembers formatLink) ⟨⟨none, none, none⟩, []⟩ =
      .ok member'' := by
    rw [nodes, ← List.cons_append, ← List.append_assoc, foldlM_append_ok hrun, foldlM_cons_ok hdl,
      hrun'']
  have hparams : ∀ param ∈ List.zipWith Documented.parameter (documented m.entries)
      (member.types.getD []), param.IsInert := by
    intro param hparam
    obtain ⟨i, hi, rfl⟩ := List.mem_iff_getElem.mp hparam
    rw [List.getElem_zipWith]
    exact (by decide : IsInert "parameter".toList)
  have hinert : ∀ node ∈ member''.done, node.IsInert := by
    rw [hdone'', hdone, List.append_assoc, List.forall_mem_append, List.singleton_append,
      List.forall_mem_cons]
    exact ⟨fun node hnode ↦ (hplain node hnode).isInert, (by decide : IsInert "details".toList),
      fun node hnode ↦ (hnew node hnode).isInert⟩
  rw [transformMember_eq h, hnodes]
  refine ⟨_, rfl, ?_⟩
  show memberSections (traverseBelow (pass1 formatLink) _ _ _ member''.done).2 = _
  rw [traverseBelow_of_inert formatLink _ _ hinert, hdone'', hdone]
  show memberSections ([] ++ _) = _
  rw [List.nil_append, List.map_append, List.map_append, memberSections, List.flatMap_append,
    List.flatMap_append, ← memberSections, ← memberSections, ← memberSections,
    memberSections_map formatLink hplain, memberSections_map formatLink hnew, List.map_singleton,
    memberSections, List.flatMap_singleton, sections_traverseDFS formatLink hbefore hafter hparams]
  rfl

theorem length_documented_le (m : MemberDoc formatLink) :
    (documented m.entries).length ≤ m.params.length := by
  have hsubset : (documented m.entries).map Documented.name ⊆ m.params.map Parameter.name := by
    intro name hname
    obtain ⟨doc, hdoc, rfl⟩ := List.mem_map.mp hname
    exact m.mem_params doc hdoc
  have hlength := (List.subperm_of_subset m.nodup hsubset).length_le
  rwa [List.length_map, List.length_map] at hlength

/-- The first of the types that are read are those of the parameters. -/
theorem getElem?_types {types : List Text} (hfirst : m.params.map Parameter.type <+: types) {i : ℕ}
    {p : Parameter} (hp : m.params[i]? = some p) : types[i]? = some p.type := by
  obtain ⟨rest, rfl⟩ := hfirst
  have hi := (List.getElem?_eq_some_iff.mp hp).1
  rw [List.getElem?_append_left (by rwa [List.length_map]), List.getElem?_map, hp, Option.map_some]

theorem attached_iff_eq {parsed params : List Node}
    (h : ∃ result, transformMember formatLink parsed = .ok result ∧
      memberSections result = [params]) :
    m.Attached parsed ↔ params = (documented m.entries).map fun doc ↦
      traverseDFS (pass1 formatLink) (doc.parameter (m.typeOf doc.name)) := by
  obtain ⟨result, hresult, hsections⟩ := h
  constructor
  · rintro ⟨result', hresult', hsections'⟩
    obtain rfl := Except.ok.inj (hresult.symm.trans hresult')
    exact (List.cons.inj (hsections.symm.trans hsections')).1
  · intro heq
    exact ⟨result, hresult, by rw [hsections, heq]⟩

/-- Where a line ends in the signature, what is documented is an error. -/
theorem not_attached_of_terminator {parsed : List Node}
    (h : fixBelow decodeText parsed = .ok m.nodes) (hne : documented m.entries ≠ [])
    (hterm : m.content.any isTerminator = true) : ¬m.Attached parsed := by
  obtain ⟨member, hrun, htypes, -⟩ := m.run_signature
  have hnone : signatureTypes m.content = none := by
    rw [signatureTypes, argsGroup, if_pos hterm]
    rfl
  have hnodes : m.nodes.foldlM (handleMembers formatLink) ⟨⟨none, none, none⟩, []⟩ =
      .error .nullPointer := by
    rw [nodes, ← List.cons_append, ← List.append_assoc, foldlM_append_ok hrun, List.foldlM_cons,
      handle_dl_error hne (htypes.trans hnone)]
    rfl
  rintro ⟨result, hresult, -⟩
  rw [transformMember_eq h, hnodes] at hresult
  exact absurd hresult (by simp [Except.map])

/-- Where all texts decode, the parameters have their types if nothing is documented, or if a line
ends nowhere in the signature and the type of each that is documented is that of the parameter that
has its place in the signature. -/
theorem attached_iff_of_decoded (m : MemberDoc formatLink) {parsed : List Node}
    (h : fixBelow decodeText parsed = .ok m.nodes) :
    m.Attached parsed ↔ documented m.entries = [] ∨
      (m.content.any isTerminator = false ∧ ∀ (i : ℕ) (doc : Documented) (p : Parameter),
        (documented m.entries)[i]? = some doc → m.params[i]? = some p →
          m.typeOf doc.name = p.type) := by
  by_cases hne : documented m.entries = []
  · have hlength : (documented m.entries).length ≤ ((signatureTypes m.content).getD []).length := by
      rw [hne]
      exact Nat.zero_le _
    refine iff_of_true ((attached_iff_eq (exists_result h hlength)).mpr ?_) (.inl hne)
    rw [hne]
    rfl
  rw [or_iff_right hne]
  by_cases hterm : m.content.any isTerminator = true
  · refine iff_of_false (not_attached_of_terminator h hne hterm) fun h ↦ ?_
    rw [h.1] at hterm
    exact Bool.false_ne_true hterm
  have hterm := Bool.eq_false_of_not_eq_true hterm
  obtain ⟨types, htypes, hfirst⟩ : ∃ types, signatureTypes m.content = some types ∧
      m.params.map Parameter.type <+: types :=
    signatureTypes_of_lists m.lists hterm
  have hlength : (documented m.entries).length ≤ types.length := by
    have hle := hfirst.length_le
    rw [List.length_map] at hle
    exact m.length_documented_le.trans hle
  have hresult := exists_result h (by rwa [htypes])
  rw [htypes, Option.getD_some] at hresult
  rw [attached_iff_eq hresult, zipWith_eq_iff formatLink m.typeOf hlength, and_iff_right hterm]
  constructor
  · exact fun h i doc p hdoc hp ↦ h i doc p.type hdoc (getElem?_types hfirst hp)
  · intro h i doc type hdoc htype
    have hi : i < m.params.length :=
      (List.getElem?_eq_some_iff.mp hdoc).1.trans_le m.length_documented_le
    have hp := List.getElem?_eq_getElem hi
    rw [getElem?_types hfirst hp] at htype
    rw [h i doc _ hdoc hp, Option.some.inj htype]

/-- A text that does not decode, as one with a bare `&`, is an error. -/
theorem not_attached_of_error {parsed : List Node} {e : Fault}
    (h : fixBelow decodeText parsed = .error e) : ¬m.Attached parsed := by
  intro ⟨result, hresult, _⟩
  rw [transformMember, h] at hresult
  cases hresult

/-- For a member that is this one as far as its texts decode, the parameters have their types just
when the texts do decode and one of two things is so: nothing is documented; or a line ends nowhere
in the signature, and the type of each parameter that is documented is that of the parameter that
has its place in the signature. -/
theorem attached_iff (m : MemberDoc formatLink) {parsed : List Node}
    (h : ∀ nodes, fixBelow decodeText parsed = .ok nodes → nodes = m.nodes) :
    m.Attached parsed ↔ (fixBelow decodeText parsed).isOk ∧ (documented m.entries = [] ∨
      (m.content.any isTerminator = false ∧ ∀ (i : ℕ) (doc : Documented) (p : Parameter),
        (documented m.entries)[i]? = some doc → m.params[i]? = some p →
          m.typeOf doc.name = p.type)) := by
  rcases hdecoded : fixBelow decodeText parsed with e | nodes
  · exact iff_of_false (not_attached_of_error hdecoded) fun hok ↦ Bool.false_ne_true hok.1
  · rw [h nodes hdecoded] at hdecoded
    rw [attached_iff_of_decoded m hdecoded]
    exact (and_iff_right rfl).symm

/-! ### A method with two parameters -/

/-- The documentation of a parameter, with its name as description. -/
def sampleEntry (name : Text) : Documented :=
  ⟨[], [], [.text name], name, []⟩

/-- `void f(int a, String b)`, where one of the parameters is documented. -/
def sample (name : Text) (h : name ∈ ["a".toList, "b".toList]) :
    MemberDoc fun content _ ↦ content where
  front := [.element "h3".toList [] [.text "f".toList]]
  middle := [.element "div".toList [] [.text "The first of these methods.".toList]]
  back := []
  isItem := by
    refine List.forall_mem_cons.mpr ⟨.title (.inr rfl), List.forall_mem_cons.mpr
      ⟨.description (by decide), List.forall_mem_nil _⟩⟩
  signature := "pre".toList
  attributes := []
  children := [.text "void ".toList, .element "b".toList [] [.text "f".toList],
    .text "(int\u00a0a,\n  ".toList, .element "a".toList [] [.text "String".toList],
    .text "\u00a0b)".toList]
  isSignature := .inl rfl
  params := [⟨"int".toList, "a".toList, by decide, by decide, by decide, by decide, by decide⟩,
    ⟨"String".toList, "b".toList, by decide, by decide, by decide, by decide, by decide⟩]
  lists := ⟨"void **f**".toList, [], by decide +kernel, by decide⟩
  dlAttributes := []
  before := [.element "dt".toList [] [.text "Returns:".toList],
    .element "dd".toList [] [.text "nothing".toList]]
  before_sections := .dt (by decide) (.dd (fun h ↦ absurd h (by decide)) .nil)
  dtAttributes := []
  label := [.text "Parameters:".toList]
  label_eq := by decide
  entries := [.inr (sampleEntry name)]
  nodup := List.nodup_singleton _
  mem_params := by
    intro d hd
    rw [List.mem_singleton.mp hd]
    have hname : (sampleEntry name).name = name := List.append_nil name
    rwa [hname]
  after := []
  after_sections := .nil

theorem fixBelow_sample (name : Text) (h : name ∈ ["a".toList, "b".toList]) :
    fixBelow decodeText (sample name h).nodes = .ok (sample name h).nodes := by
  obtain rfl | rfl : name = "a".toList ∨ name = "b".toList := by
    simpa using h
  · rfl
  · rfl

theorem attached_sample :
    (sample "a".toList (by decide)).Attached (sample "a".toList (by decide)).nodes := by
  have hdecoded := fixBelow_sample "a".toList (by decide)
  refine (attached_iff _ fun nodes h ↦ Except.ok.inj (h.symm.trans hdecoded)).mpr
    ⟨by rw [hdecoded]; rfl, .inr ⟨by decide +kernel, ?_⟩⟩
  intro i doc p hdoc hp
  cases i with
  | zero =>
    obtain rfl := Option.some.inj hdoc
    obtain rfl := Option.some.inj hp
    decide +kernel
  | succ i => exact absurd hdoc (by simp [documented, sample])

/-- Where `b` alone is documented, it gets the type of `a`. -/
theorem not_attached :
    ¬(sample "b".toList (by decide)).Attached (sample "b".toList (by decide)).nodes := by
  have htypes : signatureTypes (sample "b".toList (by decide)).content =
      some ["int".toList, "String".toList] := by
    decide +kernel
  have hresult := exists_result (fixBelow_sample "b".toList (by decide)) (by
    rw [htypes]
    decide)
  rw [htypes, Option.getD_some] at hresult
  rw [attached_iff_eq hresult]
  intro h
  have htype := parameter_inj _ (List.cons.inj h).1
  revert htype
  decide +kernel

end MemberDoc

end JPype.Javadoc
