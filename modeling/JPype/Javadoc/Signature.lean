import JPype.Javadoc.Transformer
import Mathlib.Data.List.Infix
import Mathlib.Data.List.TakeWhile

/-!
# The text of a signature

What `handleMembers` reads off a signature: its text, without inline markup and with single blanks,
falls apart at the last parentheses and then at the commas with a blank after them, and the types
of the parameters come first (`signatureTypes_of_lists`). White space after a comma becomes a blank
where it is not spread over several texts (`lists_of_texts`).
-/

namespace JPype.Javadoc

open Html.HtmlGrammar (isSpace)
open scoped Foundation.Membership

/-- A parameter of a signature. -/
structure Parameter where
  type : Text
  name : Text
  paren_notMem_type : '(' ∉ type
  paren_notMem_name : '(' ∉ name
  space_notMem_type : '\u00a0' ∉ type
  not_comma_type : ¬[',', ' '] <:+: type
  not_comma_name : ¬[',', ' '] <:+: name

/-- The text of a parameter. -/
def Parameter.written (p : Parameter) : Text :=
  p.type ++ '\u00a0' :: p.name

/-- The text is that of a signature with these parameters, with a blank after each comma. -/
def Lists (content : Text) (params : List Parameter) : Prop :=
  ∃ head tail, content =
    head ++ '(' :: ([',', ' '].intercalate (params.map Parameter.written) ++ ')' :: tail) ∧
      ')' ∉ tail

theorem splitLast_append {c : Char} {back : Text} (h : c ∉ back) (front : Text) :
    splitLast c (front ++ c :: back) = some (front, back) := by
  have hback : ∀ d ∈ back.reverse, decide (d ≠ c) = true := fun d hd ↦
    decide_eq_true fun heq ↦ h (heq ▸ List.mem_reverse.mp hd)
  rw [splitLast, if_pos (List.mem_append_right _ List.mem_cons_self), List.reverse_append,
    List.reverse_cons, List.append_assoc, List.singleton_append,
    List.dropWhile_append_of_pos hback, List.takeWhile_append_of_pos hback,
    List.dropWhile_cons_of_neg (by simp), List.takeWhile_cons_of_neg (by simp)]
  simp

theorem argsGroup_eq {head group tail : Text}
    (hterm : (head ++ '(' :: (group ++ ')' :: tail)).any isTerminator = false)
    (hgroup : '(' ∉ group) (htail : ')' ∉ tail) :
    argsGroup (head ++ '(' :: (group ++ ')' :: tail)) = some group := by
  have hsplit : head ++ '(' :: (group ++ ')' :: tail) = (head ++ '(' :: group) ++ ')' :: tail := by
    simp
  rw [argsGroup, if_neg (by simp [hterm]), hsplit, splitLast_append htail, Option.bind_eq_bind,
    Option.bind_some, splitLast_append hgroup]
  rfl

theorem notMem_intercalate {c : Char} {sep : Text} (hsep : c ∉ sep) {parts : List Text}
    (h : ∀ part ∈ parts, c ∉ part) : c ∉ sep.intercalate parts := by
  induction parts with
  | nil => exact List.not_mem_nil
  | cons part parts ih =>
    obtain ⟨hpart, hparts⟩ := List.forall_mem_cons.mp h
    cases parts with
    | nil => rwa [List.intercalate_singleton]
    | cons next parts =>
      rw [List.intercalate_cons_cons, List.mem_append, List.mem_append, not_or, not_or]
      exact ⟨⟨hpart, hsep⟩, ih hparts⟩

/-- What has no separator in it is read up to the next one. -/
theorem splitCommas_append {part : Text} (h : ¬[',', ' '] <:+: part) (done rest : Text) :
    splitCommas done (part ++ ',' :: ' ' :: rest) = (done ++ part) :: splitCommas [] rest := by
  induction part generalizing done with
  | nil => rw [List.nil_append, splitCommas, List.append_nil]
  | cons c part ih =>
    have hpart : ¬[',', ' '] <:+: part := fun hin ↦ h (hin.trans (List.suffix_cons c part).isInfix)
    rw [List.cons_append, splitCommas, ih hpart, List.append_assoc, List.singleton_append]
    rintro rest' rfl heq
    cases part with
    | nil => exact absurd (List.cons.inj heq).1 (by decide)
    | cons d part =>
      obtain rfl := (List.cons.inj heq).1
      exact h ⟨[], part, rfl⟩

theorem splitCommas_self {part : Text} (h : ¬[',', ' '] <:+: part) (done : Text) :
    splitCommas done part = [done ++ part] := by
  induction part generalizing done with
  | nil => rw [splitCommas, List.append_nil]
  | cons c part ih =>
    have hpart : ¬[',', ' '] <:+: part := fun hin ↦ h (hin.trans (List.suffix_cons c part).isInfix)
    rw [splitCommas, ih hpart, List.append_assoc, List.singleton_append]
    rintro rest' rfl rfl
    exact h ⟨[], rest', rfl⟩

theorem splitCommas_intercalate {parts : List Text} (hne : parts ≠ [])
    (h : ∀ part ∈ parts, ¬[',', ' '] <:+: part) :
    splitCommas [] ([',', ' '].intercalate parts) = parts := by
  induction parts with
  | nil => exact absurd rfl hne
  | cons part parts ih =>
    obtain ⟨hpart, hparts⟩ := List.forall_mem_cons.mp h
    cases parts with
    | nil => rw [List.intercalate_singleton, splitCommas_self hpart, List.nil_append]
    | cons next parts =>
      rw [List.intercalate_cons_cons, List.append_assoc, List.cons_append, List.singleton_append,
        splitCommas_append hpart, ih (List.cons_ne_nil _ _) hparts, List.nil_append]

theorem splitParameters_intercalate {parts : List Text} (hne : parts ≠ [])
    (h : ∀ part ∈ parts, ¬[',', ' '] <:+: part) (hpart : ∀ part ∈ parts, part ≠ []) :
    splitParameters ([',', ' '].intercalate parts) = parts := by
  rw [splitParameters, splitCommas_intercalate hne h]
  split
  · rfl
  · refine List.rdropWhile_eq_self_iff.mpr fun hlast ↦ ?_
    rw [List.isEmpty_iff]
    exact hpart _ (List.getLast_mem hlast)

/-- A pair in a text is on one side of what is not in it. -/
theorem pair_mem_side {a b c : Char} (ha : c ≠ a) (hb : c ≠ b) {front back : Text}
    (h : [a, b] <:+: front ++ c :: back) : [a, b] <:+: front ∨ [a, b] <:+: back := by
  induction front with
  | nil =>
    rw [List.nil_append, List.infix_cons_iff] at h
    exact .inr (h.resolve_left fun hpre ↦ ha (List.cons_prefix_cons.mp hpre).1.symm)
  | cons d front ih =>
    rw [List.cons_append, List.infix_cons_iff] at h
    rcases h with hpre | hin
    · refine .inl (List.IsPrefix.isInfix ?_)
      obtain ⟨rfl, hnext⟩ := List.cons_prefix_cons.mp hpre
      cases front with
      | nil => exact absurd (List.cons_prefix_cons.mp hnext).1.symm hb
      | cons e front =>
        obtain ⟨rfl, -⟩ := List.cons_prefix_cons.mp hnext
        exact ⟨front, rfl⟩
    · exact (ih hin).imp_left fun hin ↦ hin.trans (List.suffix_cons d front).isInfix

theorem Parameter.not_comma (p : Parameter) : ¬[',', ' '] <:+: p.written := fun h ↦
  (pair_mem_side (by decide) (by decide) h).elim p.not_comma_type p.not_comma_name

theorem Parameter.paren_notMem (p : Parameter) : '(' ∉ p.written := by
  rw [written, List.mem_append, List.mem_cons, not_or, not_or]
  exact ⟨p.paren_notMem_type, by decide, p.paren_notMem_name⟩

theorem Parameter.takeWhile_written (p : Parameter) :
    p.written.takeWhile (· ≠ '\u00a0') = p.type := by
  have htype : ∀ c ∈ p.type, decide (c ≠ '\u00a0') = true := fun c hc ↦
    decide_eq_true fun heq ↦ p.space_notMem_type (heq ▸ hc)
  rw [written, List.takeWhile_append_of_pos htype, List.takeWhile_cons_of_neg (by simp),
    List.append_nil]

/-- The types that are read off a signature begin with those of its parameters. -/
theorem signatureTypes_of_lists {content : Text} {params : List Parameter}
    (h : Lists content params) (hterm : content.any isTerminator = false) :
    ∃ types, signatureTypes content = some types ∧ params.map Parameter.type <+: types := by
  obtain ⟨head, tail, rfl, htail⟩ := h
  have hgroup : '(' ∉ [',', ' '].intercalate (params.map Parameter.written) :=
    notMem_intercalate (by decide) (List.forall_mem_map.mpr fun p _ ↦ p.paren_notMem)
  rw [signatureTypes, argsGroup_eq hterm hgroup htail]
  refine ⟨_, rfl, ?_⟩
  by_cases hne : params = []
  · rw [hne]
    exact List.nil_prefix
  · have hsplit : splitParameters ([',', ' '].intercalate (params.map Parameter.written)) = _ :=
      splitParameters_intercalate (mt List.map_eq_nil_iff.mp hne)
        (List.forall_mem_map.mpr fun p _ ↦ p.not_comma)
        (List.forall_mem_map.mpr fun p _ ↦
          List.append_ne_nil_of_right_ne_nil _ (List.cons_ne_nil _ _))
    show _ <+: (splitParameters _).map fun s ↦ s.takeWhile (· ≠ '\u00a0')
    rw [hsplit, List.map_map, List.map_congr_left fun p _ ↦ p.takeWhile_written.symm]
    exact List.prefix_rfl

/-! ### White space -/

/-- What does not begin with white space is brought down on its own. -/
theorem collapse_append_of_head {t : Text} (h : ∀ c ∈ t.head?, isSpace c = false) (s : Text)
    (inSpace : Bool) : collapse inSpace (s ++ t) = collapse inSpace s ++ collapse false t := by
  induction s generalizing inSpace with
  | nil =>
    cases t with
    | nil => rfl
    | cons c t =>
      have hc : ¬isSpace c = true := by
        rw [h c rfl]
        exact Bool.false_ne_true
      rw [List.nil_append, collapse, collapse, collapse, if_neg hc, if_neg hc, List.nil_append]
  | cons d s ih =>
    rw [List.cons_append, collapse, collapse]
    split
    · rw [ih, List.append_assoc]
    · rw [ih, List.cons_append]

theorem collapse_append_cons {c : Char} (h : isSpace c = false) (s t : Text) :
    collapse false (s ++ c :: t) = collapse false s ++ c :: collapse false t := by
  have hhead : ∀ d ∈ (c :: t).head?, isSpace d = false := fun d hd ↦ Option.some.inj hd ▸ h
  have hcons : collapse false (c :: t) = c :: collapse false t := by
    rw [collapse, if_neg (by simp [h])]
  rw [collapse_append_of_head hhead, hcons]

theorem mem_of_mem_collapse {c : Char} {inSpace : Bool} {s : Text} (h : c ∈ collapse inSpace s)
    (hc : c ≠ ' ') : c ∈ s := by
  induction s generalizing inSpace with
  | nil => exact h
  | cons d s ih =>
    rw [collapse] at h
    split at h
    · rcases List.mem_append.mp h with h | h
      · cases inSpace with
        | true => exact absurd h List.not_mem_nil
        | false => exact absurd (List.mem_singleton.mp h) hc
      · exact List.mem_cons_of_mem _ (ih h)
    · rcases List.mem_cons.mp h with rfl | h
      · exact List.mem_cons_self
      · exact List.mem_cons_of_mem _ (ih h)

/-- And so is what comes after something that does not end with white space. -/
theorem collapse_append_of_last {s : Text} (h : ∀ c ∈ s.getLast?, isSpace c = false) (t : Text) :
    collapse false (s ++ t) = collapse false s ++ collapse false t := by
  rcases List.eq_nil_or_concat s with rfl | ⟨s, c, rfl⟩
  · rfl
  · have hc : isSpace c = false := h c (by simp)
    rw [List.concat_eq_append, List.append_assoc, List.singleton_append,
      collapse_append_cons hc, collapse_append_cons hc, List.append_assoc]
    rfl

theorem collapse_true_space {space : Text} (h : ∀ c ∈ space, isSpace c = true) :
    collapse true space = [] := by
  induction space with
  | nil => rfl
  | cons c space ih =>
    obtain ⟨hc, hspace⟩ := List.forall_mem_cons.mp h
    rw [collapse, if_pos hc, if_pos rfl, ih hspace, List.nil_append]

/-- White space before something else is one blank. -/
theorem collapse_space {space t : Text} (hne : space ≠ []) (hspace : ∀ c ∈ space, isSpace c = true)
    (h : ∀ c ∈ t.head?, isSpace c = false) :
    collapse false (space ++ t) = ' ' :: collapse false t := by
  obtain ⟨c, space, rfl⟩ := List.exists_cons_of_ne_nil hne
  obtain ⟨hc, hspace⟩ := List.forall_mem_cons.mp hspace
  rw [collapse_append_of_head h, collapse, if_pos hc, collapse_true_space hspace]
  rfl

/-- White space is nowhere spread over several texts. -/
def IsSolid (texts : List Text) : Prop :=
  ∀ l r, texts = l ++ r → (∀ c ∈ l.flatten.getLast?, isSpace c = false) ∨
    ∀ c ∈ r.flatten.head?, isSpace c = false

theorem IsSolid.tail {t : Text} {texts : List Text} (h : IsSolid (t :: texts)) :
    IsSolid texts := by
  intro l r hlr
  refine (h (t :: l) r (by rw [hlr, List.cons_append])).imp_left fun hlast c hc ↦ hlast c ?_
  rw [List.flatten_cons, List.getLast?_append, Option.mem_def.mp hc]
  rfl

/-- Then it is brought down as in one text. -/
theorem textContents_removeWhitespace {texts : List Text} (h : IsSolid texts) :
    textContents (removeWhitespace (texts.map .text)) = collapse false texts.flatten := by
  induction texts with
  | nil => rfl
  | cons t texts ih =>
    have hrest := ih h.tail
    show collapse false t ++ textContents (removeWhitespace (texts.map .text)) = _
    rw [hrest, List.flatten_cons]
    rcases h [t] texts rfl with hlast | hhead
    · rw [List.flatten_singleton] at hlast
      exact (collapse_append_of_last hlast _).symm
    · exact (collapse_append_of_head hhead t false).symm

/-- A parameter with no more white space than is needed. -/
structure Parameter.IsTight (p : Parameter) : Prop where
  collapse_written : collapse false p.written = p.written
  isSpace_head : ∀ c ∈ p.written.head?, isSpace c = false

/-- Parameters with some white space after each comma. -/
def spread (p : Parameter) : List (Text × Parameter) → Text
  | [] => p.written
  | (space, q) :: rest => p.written ++ ',' :: (space ++ spread q rest)

theorem spread_head (p : Parameter) (rest : List (Text × Parameter)) :
    (spread p rest).head? = p.written.head? := by
  have hne : p.written ≠ [] := List.append_ne_nil_of_right_ne_nil _ (List.cons_ne_nil _ _)
  cases rest with
  | nil => rfl
  | cons next rest => rw [spread, List.head?_append_of_ne_nil _ hne]

theorem collapse_spread {p : Parameter} (hp : p.IsTight) {rest : List (Text × Parameter)}
    (hrest : ∀ next ∈ rest, next.1 ≠ [] ∧ (∀ c ∈ next.1, isSpace c = true) ∧ next.2.IsTight) :
    collapse false (spread p rest) =
      [',', ' '].intercalate ((p :: rest.map Prod.snd).map Parameter.written) := by
  induction rest generalizing p with
  | nil =>
    rw [spread, hp.collapse_written, List.map_nil, List.map_singleton, List.intercalate_singleton]
  | cons next rest ih =>
    obtain ⟨⟨hne, hspace, hq⟩, hrest⟩ := List.forall_mem_cons.mp hrest
    have hcomma : isSpace ',' = false := by decide
    have hhead : ∀ c ∈ (spread next.2 rest).head?, isSpace c = false := by
      rw [spread_head]
      exact hq.isSpace_head
    rw [spread, collapse_append_cons hcomma, collapse_space hne hspace hhead, ih hq hrest,
      hp.collapse_written, List.map_cons, List.map_cons, List.map_cons, List.map_cons,
        List.intercalate_cons_cons,
      List.append_assoc]
    rfl

section

variable (formatLink : Text → Text → Text)

/-- The children of a signature, without inline markup and with single blanks. -/
def signatureContents (attributes : List (Text × Text)) (children : List Node) : List Node :=
  removeWhitespace
    (traverseBelow (pass1 formatLink) "signature".toList attributes [] children).2

/-- A signature lists its parameters, whatever white space there is after the commas. -/
theorem lists_of_texts {attributes : List (Text × Text)} {children : List Node} {texts : List Text}
    (htexts : (traverseBelow (pass1 formatLink) "signature".toList attributes [] children).2 =
      texts.map .text) (hsolid : IsSolid texts) {head tail : Text} {p : Parameter}
    (hp : p.IsTight) {rest : List (Text × Parameter)}
    (hrest : ∀ next ∈ rest, next.1 ≠ [] ∧ (∀ c ∈ next.1, isSpace c = true) ∧ next.2.IsTight)
    (hflatten : texts.flatten = head ++ '(' :: (spread p rest ++ ')' :: tail))
    (htail : ')' ∉ tail) :
    Lists (textContents (signatureContents formatLink attributes children))
      (p :: rest.map Prod.snd) := by
  have hopen : isSpace '(' = false := by decide
  have hclose : isSpace ')' = false := by decide
  have hcontent : textContents (signatureContents formatLink attributes children) =
      collapse false (head ++ '(' :: (spread p rest ++ ')' :: tail)) := by
    rw [signatureContents, htexts, textContents_removeWhitespace hsolid, hflatten]
  refine ⟨collapse false head, collapse false tail, ?_, fun hmem ↦
    htail (mem_of_mem_collapse hmem (by decide))⟩
  rw [hcontent, collapse_append_cons hopen, collapse_append_cons hclose, collapse_spread hp hrest]

end

end JPype.Javadoc
