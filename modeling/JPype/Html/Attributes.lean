import JPype.Html.AttrReading
import JPype.Html.StartTag

/-!
# Attributes

The attributes of a start tag, as they are read (`attributesOf`): the grammar of documents tells the
text of the tag, and the grammar of attributes reads what comes after its first white space. An
attribute in single quotes is not closed, an empty value is no token, and a boolean attribute is
delivered only when another one comes after it; names and values that do not fit into a block are
torn. All other attributes survive (`attributesOf_eq_iff`).
-/

namespace JPype.Html

open Unicode

/-- The attributes of the start tag `text`, by `HtmlTreeHandler.startElement`. -/
def attributesOf (doc : Document) (text : List Char) : Option (List (List Char × List Char)) :=
  match htmlGrammar.parse HtmlGrammar.HtmlParser.new text with
  | .error _ => none
  | .ok p =>
    match p.delivered.findSome? (fun
      | .startElement _ attr => some attr
      | _ => none) with
    | none => none
    | some none => some []
    | some (some attr) =>
      match (attrGrammar doc).parse AttrGrammar.AttrParser.new attr with
      | .error _ => none
      | .ok p => some p.delivered

variable {doc : Document}

/-- The text `text`, after a space unless no attributes are left. -/
def spaced (as : List (Attribute doc)) (text : List Char) : List Char :=
  match as with
  | [] => []
  | _ :: _ => ' ' :: text

/-- What comes after a name: `next` if there is no value, and `next'` after a value. -/
def valueText (value : Option (Quote × List Char)) (next next' : List Char) : List Char :=
  match value with
  | none => next
  | some (q, v) => '=' :: q.char :: (reread 0 v ++ '"' :: next')

/-- What the grammar of attributes reads, the first name beginning in a block with `filled`
bytes. -/
def body (filled : ℕ) : List (Attribute doc) → List Char
  | [] => []
  | a :: as =>
    reread filled a.name ++ valueText a.value
      (spaced as (body (stop (filledBy filled a.name) ' ') as)) (spaced as (body 1 as))

/-- Attributes that are read as they are written, the first name beginning in a block with `filled`
bytes: names and values fit into a block, and no character of a name lies in two; a value is not
empty, and in double quotes; and a boolean attribute is not the last one. -/
def Survives (filled : ℕ) : List (Attribute doc) → Prop
  | [] => True
  | a :: as =>
    (utf8 a.name).length ≤ Grammar.capacity ∧ Unsplit filled a.name ∧
      match a.value with
      | none => as ≠ [] ∧ Survives (stop (filledBy filled a.name) ' ') as
      | some (q, v) =>
        q = .double ∧ v ≠ [] ∧ (utf8 v).length ≤ Grammar.capacity ∧ Survives 1 as

namespace AttrGrammar

variable {last : Option Token} {stack : List (Entity Token)} {s n name : List Char}
  {out target more : List (List Char × List Char)} {val : List Char}

theorem head_valueText (as : List (Attribute doc)) (value : Option (Quote × List Char))
    (next next' : List Char) :
    ∀ c ∈ (valueText value (spaced as next) next').head?, c = ' ' ∨ c = '=' := by
  intro c hc
  cases value with
  | some value => exact .inr (Option.some.inj hc).symm
  | none =>
    cases as with
    | nil => cases hc
    | cons a as => exact .inl (Option.some.inj hc).symm

/-- An empty value is no text, and the name after it is taken for it. -/
theorem not_reaches_empty {as : List (Attribute doc)} (hname : doc.isXMLName name)
    (htarget : target = out ++ (name, []) :: more) :
    ¬Reaches target (read doc ⟨.free, last, none, [⟨.eq, .null⟩, textEntity n], out⟩
      (spaced as (body 1 as))) := by
  have hstack : BeforeName [⟨.eq, .null⟩, textEntity n] := .inr (.inr ⟨n, rfl⟩)
  cases as with
  | nil =>
    intro h
    replace h : out = target := h
    rw [htarget] at h
    simp at h
  | cons a as =>
    rw [spaced, read_space hstack, body,
      read_name hstack (isWord_reread a.isXMLName_name) (head_valueText as _ _ _)]
    exact not_reaches_feed_eq hname a.isXMLName_name (extends_afterName _) htarget

/-- A value in single quotes is read beyond its end. -/
theorem not_reaches_single {value rest : List Char} (hvalue : '\'' ∉ value)
    (hname : doc.isXMLName name) (hn : doc.isXMLName n → n = name)
    (hmore : name ∉ more.map Prod.fst) (htarget : target = out ++ (name, value) :: more) :
    ¬Reaches target (read doc ⟨quoteState .single, last, none, [⟨.eq, .null⟩, textEntity n], out⟩
      (reread 0 value ++ '"' :: rest)) := by
  have hreread : '\'' ∉ reread 0 value := not_mem_reread (by decide) hvalue
  by_cases hmem : '\'' ∈ reread 0 value ++ '"' :: rest
  · obtain ⟨text, rest', heq, hnot⟩ := List.eq_append_cons_of_mem hmem
    -- the text goes beyond the value
    obtain ⟨next, rfl, hnext⟩ : ∃ next, text = reread 0 value ++ next ∧ next ≠ [] := by
      obtain ⟨next, htext, hrest⟩ | ⟨next, hvalue', hrest⟩ := List.append_eq_append_iff.1 heq
      · refine ⟨next, htext, ?_⟩
        rintro rfl
        exact absurd (List.cons.inj hrest).1 (by decide)
      · cases next with
        | nil => exact absurd (List.cons.inj hrest).1 (by decide)
        | cons c next =>
          obtain rfl : '\'' = c := (List.cons.inj hrest).1
          exact absurd (hvalue' ▸ List.mem_append_right _ List.mem_cons_self) hreread
    rw [heq]
    intro h
    have hne : reread 0 value ++ next ≠ [] := by simp [hnext]
    obtain ⟨-, htext, -⟩ := (reaches_value (q := .single) hne hnot hname hn hmore htarget).1 h
    have hlength := congrArg List.length (congrArg Prod.snd htext)
    have hle := length_le_reread 0 value
    have hpos := List.length_pos_iff.2 hnext
    rw [List.length_append] at hlength
    dsimp only at hlength
    omega
  · rw [read_eq_feed (isRun_value (q := .single) hmem) rfl ⟨rfl, rfl⟩, feed_quoted (by simp)]
    intro h
    replace h : out = target := h
    rw [htarget] at h
    simp at h

/-! ### All attributes -/

/-- The attributes are read as they are written exactly if they survive; before them, on the stack,
there may be a boolean attribute `m`. -/
structure ReadsBack (target : List (List Char × List Char)) (filled : ℕ)
    (as : List (Attribute doc)) :
    Prop where
  alone : ∀ last out, target = out ++ as.map Attribute.pair →
    (Reaches target (read doc ⟨.free, last, none, [], out⟩ (body filled as)) ↔ Survives filled as)
  after : as ≠ [] → ∀ last out n m, doc.isXMLName m →
    target = out ++ (m, m) :: as.map Attribute.pair →
    (Reaches target (read doc ⟨.free, last, none, [textEntity n], out⟩ (body filled as)) ↔
      n = m ∧ Survives filled as)

/-- What comes after the name of an attribute, when it has been read. -/
def tail (filled : ℕ) (a : Attribute doc) (as : List (Attribute doc)) : List Char :=
  valueText a.value (spaced as (body (stop (filledBy filled a.name) ' ') as))
    (spaced as (body 1 as))

/-- What an attribute with its name must be like to survive. -/
def TailSurvives (filled : ℕ) (a : Attribute doc) (as : List (Attribute doc)) : Prop :=
  match a.value with
  | none => as ≠ [] ∧ Survives (stop (filledBy filled a.name) ' ') as
  | some (q, v) => q = .double ∧ v ≠ [] ∧ (utf8 v).length ≤ Grammar.capacity ∧ Survives 1 as

variable {a : Attribute doc} {as : List (Attribute doc)} {filled : ℕ}

theorem fst_pair (a : Attribute doc) : a.pair.1 = a.name := by
  rw [Attribute.pair]
  split <;> rfl

/-- A value in double quotes. -/
theorem reaches_double {v : List Char} (ih : ReadsBack target 1 as) (hv : '"' ∉ v)
    (hname : doc.isXMLName name) (hn : doc.isXMLName n → n = name)
    (hmore : name ∉ (as.map Attribute.pair).map Prod.fst)
    (htarget : target = out ++ (name, v) :: as.map Attribute.pair) :
    Reaches target (read doc ⟨quoteState .double, last, none, [⟨.eq, .null⟩, textEntity n], out⟩
        (reread 0 v ++ '"' :: spaced as (body 1 as))) ↔
      n = name ∧ v ≠ [] ∧ (utf8 v).length ≤ Grammar.capacity ∧ Survives 1 as := by
  have hspaced : ∀ last, Reaches target (read doc ⟨.free, last, none, [], out ++ [(name, v)]⟩
      (spaced as (body 1 as))) ↔ Survives 1 as := by
    intro last
    have htarget' : target = out ++ [(name, v)] ++ as.map Attribute.pair := by simp [htarget]
    cases as with
    | nil => exact ih.alone _ _ htarget'
    | cons a as =>
      rw [spaced, read_space (.inl rfl)]
      exact ih.alone _ _ htarget'
  cases v with
  | nil =>
    have hempty : read doc ⟨quoteState .double, last, none, [⟨.eq, .null⟩, textEntity n], out⟩
        (reread 0 [] ++ '"' :: spaced as (body 1 as)) =
          read doc ⟨.free, some .quote, none, [⟨.eq, .null⟩, textEntity n], out⟩
            (spaced as (body 1 as)) := by
      show read doc _ ('"' :: _) = _
      rw [read_token (show String.utf8EncodeChar '"' = [0x22] from rfl) .quote rfl (by decide)]
      rfl
    rw [hempty]
    exact ⟨fun h ↦ absurd h (not_reaches_empty hname htarget), fun h ↦ absurd rfl h.2.1⟩
  | cons c v =>
    have hne : reread 0 (c :: v) ≠ [] := reread_ne_nil (List.cons_ne_nil c v)
    have hquote : '"' ∉ reread 0 (c :: v) := not_mem_reread (by decide) hv
    refine (reaches_value (q := .double) hne hquote hname hn hmore htarget).trans ?_
    rw [hspaced, Prod.mk.injEq]
    constructor
    · rintro ⟨hfits, ⟨hname', hreread⟩, hsurvives⟩
      rw [hreread] at hfits
      exact ⟨hname', List.cons_ne_nil _ _, hfits, hsurvives⟩
    · rintro ⟨hname', -, hfits, hsurvives⟩
      have hreread : reread 0 (c :: v) = c :: v := reread_of_unsplit (unsplit_of_le (by omega))
      rw [hreread]
      exact ⟨hfits, ⟨hname', rfl⟩, hsurvives⟩

theorem reaches_tail (ih : ∀ filled, ReadsBack target filled as)
    (hnot : a.name ∉ as.map Attribute.name)
    (htarget : target = out ++ (a :: as).map Attribute.pair) :
    Reaches target (afterName doc (tail filled a as)
        ⟨.free, last, none, [textEntity (reread filled a.name)], out⟩) ↔
      reread filled a.name = a.name ∧ TailSurvives filled a as := by
  have hname : doc.isXMLName (reread filled a.name) → reread filled a.name = a.name :=
    reread_of_isXMLName
  have hmore : a.name ∉ (as.map Attribute.pair).map Prod.fst := by
    simpa [List.map_map, Function.comp_def, fst_pair] using hnot
  rw [List.map_cons, Attribute.pair] at htarget
  rw [tail, TailSurvives]
  cases hvalue : a.value with
  | none =>
    rw [hvalue] at htarget
    cases as with
    | nil =>
      refine ⟨fun h ↦ ?_, fun h ↦ absurd rfl h.2.1⟩
      replace h : out = target := h
      rw [htarget] at h
      simp at h
    | cons a' as =>
      rw [valueText, spaced, afterName_space,
        (ih _).after (List.cons_ne_nil _ _) _ _ _ _ a.isXMLName_name htarget]
      exact and_congr_right fun _ ↦ ⟨fun h ↦ ⟨List.cons_ne_nil _ _, h⟩, fun h ↦ h.2⟩
  | some value =>
    obtain ⟨q, v⟩ := value
    rw [hvalue] at htarget
    rw [valueText, afterName_eq]
    cases q with
    | double =>
      rw [reaches_double (ih 1) (a.value_quote _ v hvalue) a.isXMLName_name hname hmore htarget]
      exact and_congr_right fun _ ↦ ⟨fun h ↦ ⟨rfl, h⟩, fun h ↦ h.2⟩
    | single =>
      refine ⟨fun h ↦ absurd h ?_, fun h ↦ nomatch h.2.1⟩
      exact not_reaches_single (a.value_quote _ v hvalue) a.isXMLName_name hname hmore htarget

theorem survives_cons : Survives filled (a :: as) ↔
    (utf8 (reread filled a.name)).length ≤ Grammar.capacity ∧
      reread filled a.name = a.name ∧ TailSurvives filled a as := by
  show _ ∧ Unsplit filled a.name ∧ TailSurvives filled a as ↔ _
  rw [← reread_eq_iff a.isXMLName_name]
  constructor
  · rintro ⟨hfits, heq, htail⟩
    exact ⟨by rwa [heq], heq, htail⟩
  · rintro ⟨hfits, heq, htail⟩
    exact ⟨by rwa [heq] at hfits, heq, htail⟩

theorem readsBack_cons (ih : ∀ filled, ReadsBack target filled as)
    (hnot : a.name ∉ as.map Attribute.name) : ReadsBack target filled (a :: as) := by
  have hword : IsWord (reread filled a.name) := isWord_reread a.isXMLName_name
  have hpairs : (a :: as).map Attribute.pair = (a.name, a.pair.2) :: as.map Attribute.pair := by
    rw [← fst_pair a]
    rfl
  constructor
  · intro last out htarget
    have hfirst : target = out ++ (a.name, a.pair.2) :: as.map Attribute.pair := by
      rw [htarget, hpairs]
    rw [body, read_name (.inl rfl) hword (head_valueText as _ _ _),
      reaches_feed_nil a.isXMLName_name (extends_afterName _) hfirst, survives_cons]
    exact and_congr_right fun _ ↦ reaches_tail ih hnot htarget
  · intro _ last out n m hm htarget
    have hfirst : target = out ++ (m, m) :: (a.name, a.pair.2) :: as.map Attribute.pair := by
      rw [htarget, hpairs]
    have htarget' : target = out ++ [(m, m)] ++ (a :: as).map Attribute.pair := by
      rw [htarget, List.append_assoc, List.singleton_append]
    rw [body, read_name (.inr (.inl ⟨n, rfl⟩)) hword (head_valueText as _ _ _),
      reaches_feed_text hm a.isXMLName_name (extends_afterName _) hfirst, survives_cons]
    exact and_congr_right fun _ ↦ and_congr_right fun _ ↦ reaches_tail ih hnot htarget'

theorem readsBack (as : List (Attribute doc)) : (as.map Attribute.name).Nodup →
    ∀ filled, ReadsBack target filled as := by
  induction as with
  | nil =>
    intro _ filled
    refine ⟨fun last out htarget ↦ ?_, fun hne ↦ absurd rfl hne⟩
    rw [List.map_nil, List.append_nil] at htarget
    exact ⟨fun _ ↦ trivial, fun _ ↦ htarget.symm⟩
  | cons a as ih =>
    intro hnodup filled
    rw [List.map_cons, List.nodup_cons] at hnodup
    exact readsBack_cons (ih hnodup.2) hnodup.1

end AttrGrammar

/-! ### A whole tag -/

open HtmlGrammar

/-- The text of a tag, as it is told: what has been read of the element, and then the attributes. -/
theorem tagContent_eq (as : List (Attribute doc)) : ∀ run : List Char,
    tagContent run as = reread 0 run ++ spaced as (body (stop (filledBy 0 run) ' ') as) := by
  have hspace : ∀ run : List Char, stop (filledBy 0 run) ' ' ≤ Grammar.capacity :=
    fun run ↦ stop_le (filledBy_le (Nat.zero_le _) run) rfl
  have hreread : ∀ run s : List Char, reread 0 (run ++ ' ' :: s) =
      reread 0 run ++ ' ' :: reread (stop (filledBy 0 run) ' ') s := by
    intro run s
    rw [reread_append, reread, if_pos (hspace run)]
  have hfilled : ∀ run s : List Char,
      filledBy 0 (run ++ ' ' :: s) = filledBy (stop (filledBy 0 run) ' ') s := by
    intro run s
    rw [filledBy_append, filledBy, if_pos (hspace run)]
  induction as with
  | nil => exact fun run ↦ (List.append_nil _).symm
  | cons a as ih =>
    intro run
    rw [tagContent, spaced, body]
    cases a.value with
    | none =>
      dsimp only
      rw [ih, hreread, hfilled, valueText, List.append_assoc, List.cons_append]
    | some value =>
      obtain ⟨q, v⟩ := value
      have hsign : reread (filledBy (stop (filledBy 0 run) ' ') a.name) ['='] = ['='] :=
        reread_of_unsplit ⟨stop_le (filledBy_le (hspace run) a.name) rfl, trivial⟩
      have hnext : tagContent [] as = spaced as (body 1 as) := ih []
      dsimp only
      rw [hnext, hreread, reread_append, hsign, valueText]
      simp

/-- White space has a low code. -/
theorem isSpace_eq_false {c : Char} (hc : 0x20 < c.toNat) : isSpace c = false := by
  have hne : ∀ d : Char, d.toNat ≤ 0x20 → (c == d) = false := by
    intro d hd
    rw [beq_eq_false_iff_ne]
    rintro rfl
    omega
  rw [isSpace, hne _ (by decide), hne _ (by decide), hne _ (by decide), hne _ (by decide),
    hne _ (by decide), hne _ (by decide)]
  rfl

theorem splitSpace_of_not_isSpace {s : List Char} (hs : ∀ c ∈ s, isSpace c = false) :
    splitSpace s = (s, none) := by
  have hdrop : s.dropWhile (fun c ↦ !isSpace c) = [] := by
    rw [List.dropWhile_eq_nil_iff]
    intro c hc
    rw [hs c hc]
    rfl
  rw [splitSpace, hdrop]

theorem splitSpace_append {s rest : List Char} (hs : ∀ c ∈ s, isSpace c = false)
    (hrest : ∀ c ∈ rest.head?, isSpace c = false) :
    splitSpace (s ++ ' ' :: rest) = (s, some rest) := by
  have hs' : ∀ c ∈ s, (!isSpace c) = true := by
    intro c hc
    rw [hs c hc]
    rfl
  have hdrop : (s ++ ' ' :: rest).dropWhile (fun c ↦ !isSpace c) = ' ' :: rest := by
    rw [List.dropWhile_append_of_pos hs']
    rfl
  have htake : (s ++ ' ' :: rest).takeWhile (fun c ↦ !isSpace c) = s := by
    rw [List.takeWhile_append_of_pos hs']
    exact List.append_nil s
  have hrest' : (' ' :: rest).dropWhile isSpace = rest := by
    show rest.dropWhile isSpace = rest
    cases rest with
    | nil => rfl
    | cons c rest => rw [List.dropWhile_cons_of_neg (by simp [hrest c rfl])]
  rw [splitSpace, hdrop, htake]
  dsimp only
  rw [hrest']

/-- What the grammar of attributes reads begins with a name. -/
theorem head_body (filled : ℕ) (a : Attribute doc) (as : List (Attribute doc)) :
    ∀ c ∈ (body filled (a :: as)).head?, isSpace c = false := by
  have hne : reread filled a.name ≠ [] :=
    reread_ne_nil (AttrGrammar.ne_nil_of_isXMLName a.isXMLName_name)
  intro c hc
  rw [body, List.head?_append_of_ne_nil _ hne] at hc
  exact isSpace_eq_false (AttrGrammar.isWord_reread a.isXMLName_name c (List.mem_of_mem_head? hc)).1

/-- The attributes of a tag are read as they are written exactly if they survive. -/
theorem attributesOf_eq_iff (t : StartTag doc) :
    attributesOf doc t.text = some (t.attributes.map Attribute.pair) ↔
      Survives (stop (filledBy 0 t.element) ' ') t.attributes := by
  have helement : ∀ c ∈ reread 0 t.element, isSpace c = false :=
    fun c hc ↦ isSpace_eq_false (AttrGrammar.isWord_reread t.isXMLName_element c hc).1
  obtain ⟨p, hparse, hdelivered⟩ := parse_tag t
  rw [attributesOf, hparse]
  dsimp only
  rw [hdelivered, tagContent_eq]
  cases hattributes : t.attributes with
  | nil =>
    rw [spaced, List.append_nil, splitSpace_of_not_isSpace helement]
    exact ⟨fun _ ↦ trivial, fun _ ↦ rfl⟩
  | cons a as =>
    have hnodup := t.nodup
    rw [hattributes] at hnodup
    rw [spaced, splitSpace_append helement (head_body _ a as),
      ← (AttrGrammar.readsBack (a :: as) hnodup _).alone none [] rfl]
    have hparse : ∀ attr, (attrGrammar doc).parse AttrGrammar.AttrParser.new attr =
        AttrGrammar.read doc ⟨.free, none, none, [], []⟩ attr := by
      intro attr
      rw [AttrGrammar.read, bind_assoc]
      rfl
    show (match (attrGrammar doc).parse _ _ with
      | .error _ => none
      | .ok p => some p.delivered) = _ ↔ _
    rw [hparse]
    cases AttrGrammar.read doc ⟨.free, none, none, [], []⟩ _ with
    | error e => exact ⟨fun h ↦ absurd h.symm (Option.some_ne_none _), False.elim⟩
    | ok p => exact ⟨Option.some.inj, congrArg some⟩

/-- A character of the names in ASCII. -/
def isNameChar (c : Char) : Bool :=
  c.isAlphanum || c == '-' || c == '_' || c == '.' || c == ':'

theorem not_isMark_of_isNameChar {c : Char} (h : isNameChar c) : ¬IsMark c := by
  have hmarks :
      ['!', '"', '&', '\'', '/', ';', '<', '=', '>', replacement].all (!isNameChar ·) := by
    decide
  have hcontrols : ∀ n < 0x21, isNameChar (Char.ofNat n) = false := by
    decide
  rintro (hlow | hmark)
  · have hchar := hcontrols c.toNat (Nat.lt_succ_of_le hlow)
    rw [Char.ofNat_toNat, h] at hchar
    cases hchar
  · have hnot := List.all_eq_true.1 hmarks c hmark
    rw [h] at hnot
    cases hnot

/-- A document that knows the names in ASCII. -/
def asciiDocument : Document where
  isXMLName
    | [] => false
    | c :: name => (c.isAlpha || c == '_' || c == ':') && (c :: name).all isNameChar
  isXMLName_nil := rfl
  not_isMark name h c hc := by
    cases name with
    | nil => cases hc
    | cons d name =>
      rw [Bool.and_eq_true, List.all_eq_true] at h
      exact not_isMark_of_isNameChar (h.2 c hc)

/-- `<a b='c'>` -/
def singleQuoted : StartTag asciiDocument where
  element := ['a']
  attributes := [⟨['b'], some (.single, ['c']), rfl, by rintro _ _ ⟨⟩; decide⟩]
  isXMLName_element := rfl
  nodup := by decide

/-- An attribute in single quotes is not read. -/
theorem attributesOf_singleQuoted_ne :
    attributesOf asciiDocument singleQuoted.text ≠
      some (singleQuoted.attributes.map Attribute.pair) := by
  decide +kernel

end JPype.Html
