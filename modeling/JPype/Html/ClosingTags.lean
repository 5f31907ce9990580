import JPype.Html.TreeHandler

/-!
# Closing tags

A tag that ends an element should close the innermost open element of its name with all above it,
and nothing where none is open. It does so where only elements whose end may be omitted lie above
that element, or, if there is none, where the element on top is not such a one
(`closes_of_endsCleanly`). Elsewhere it does not, except that the handler may hit upon the right
elements by chance when it has at least two elements to close in between
(`endsCleanly_or_of_closes`).

Every end comes to an end (`ends_endElement`).
-/

namespace JPype.Html

open HtmlGrammar

namespace HtmlTreeHandler

variable {loc : Locale} {h : HtmlTreeHandler loc} {name : List Char} {e last : Element loc}
  {rest below : List (Element loc)}

/-! ### Ends come to an end -/

theorem ends_removeLast (h : HtmlTreeHandler loc) :
    Ends (fun h' ↦ h'.elementStack <:+ h.elementStack) (removeLast h) := by
  obtain ⟨nodes, stack, attrParser, errors⟩ := h
  cases stack with
  | nil => exact ParseError.noConfusion
  | cons e stack => exact List.suffix_cons e stack

theorem ends_closeMissing {f : List Char → HtmlTreeHandler loc →
      Attempt (HtmlTreeHandler loc) (HtmlTreeHandler loc)} {last : List Char} {n : ℕ}
    (hf : ∀ h, h.elementStack.length < n →
      Ends (fun h' ↦ h'.elementStack <:+ h.elementStack) (f last h))
    (j : ℕ) : ∀ h, h.elementStack.length < n →
      Ends (fun h' ↦ h'.elementStack <:+ h.elementStack) (closeMissing f last j h) := by
  induction j with
  | zero => exact fun h _ ↦ List.suffix_rfl
  | succ j ih =>
    intro h hlt
    refine (hf h hlt).bind fun h₁ h₁suffix ↦ ?_
    exact (ih h₁ (h₁suffix.length_le.trans_lt hlt)).mono fun _ hsuffix ↦ hsuffix.trans h₁suffix

theorem ends_endWithin (n : ℕ) : ∀ (name : List Char) (h : HtmlTreeHandler loc),
    h.elementStack.length < n →
      Ends (fun h' ↦ h'.elementStack <:+ h.elementStack) (endWithin n name h) := by
  induction n with
  | zero => exact fun _ _ hlt ↦ absurd hlt (Nat.not_lt_zero _)
  | succ n ih =>
    intro name h hlt
    by_cases hne : h.elementStack = []
    · rw [endWithin]
      dsimp only
      rw [if_pos hne]
      exact ParseError.noConfusion
    have hpos : 0 < h.elementStack.length := List.length_pos_iff.2 hne
    obtain ⟨n, rfl⟩ := Nat.exists_eq_succ_of_ne_zero (n := n) (by omega)
    cases hdrop : h.elementStack.dropWhile (Skipped (loc.normalize name)) with
    | nil =>
      rw [endWithin_of_nil hne hdrop]
      exact ParseError.noConfusion
    | cons last below =>
      have hsuffix : last :: below <:+ h.elementStack := hdrop ▸ List.dropWhile_suffix _
      by_cases hlast : last.nodeName = loc.normalize name
      · rw [endWithin_of_top hdrop hlast]
        exact (List.suffix_cons last below).trans hsuffix
      · rw [endWithin_of_mismatch hdrop hlast, recover]
        split
        · exact ParseError.noConfusion
        · next i _ _ _ =>
          have hmissing : Ends (fun h' ↦ h'.elementStack <:+ last :: below)
              (closeMissing (endWithin (n + 1)) last.nodeName i
                { h with elementStack := last :: below, errors := h.errors + 1 }) := by
            cases i with
            | zero => exact List.suffix_rfl
            | succ i =>
              -- the element on top is closed by its own name; below it, ends come to an end
              rw [closeMissing, endWithin_top rfl]
              refine (ends_closeMissing (fun h₁ h₁lt ↦ ih last.nodeName h₁ h₁lt) i _ ?_).mono
                fun _ h₂ ↦ h₂.trans (List.suffix_cons last below)
              have hle := hsuffix.length_le
              rw [List.length_cons] at hle
              exact Nat.lt_of_lt_of_le hle (Nat.lt_succ_iff.1 hlt)
          exact hmissing.bind fun h₁ h₁suffix ↦
            (ends_removeLast h₁).mono fun _ h₂ ↦ (h₂.trans h₁suffix).trans hsuffix
        · split
          · exact ParseError.noConfusion
          · exact hsuffix

/-- An end closes elements from the top, or throws. -/
theorem ends_endElement (name : List Char) (h : HtmlTreeHandler loc) :
    Ends (fun h' ↦ h'.elementStack <:+ h.elementStack) (endElement name h) :=
  ends_endWithin _ name h (Nat.lt_succ_self _)

/-! ### What should be closed -/

/-- The handler after a call, however it ends. -/
def after : Attempt (HtmlTreeHandler loc) (HtmlTreeHandler loc) → HtmlTreeHandler loc
  | .ok h => h
  | .error (_, h) => h

/-- The element `e` is the innermost of the name `n`, with the elements `above` above it. -/
structure Innermost (n : List Char) (stack above : List (Element loc)) (e : Element loc)
    (below : List (Element loc)) : Prop where
  stack_eq : stack = above ++ e :: below
  nodeName_eq : e.nodeName = n
  ne_of_mem : ∀ x ∈ above, x.nodeName ≠ n

/-- A tag closes the innermost element of its name and all above it, and nothing if none is open. -/
structure Closes (h : HtmlTreeHandler loc) (name : List Char) : Prop where
  of_open : ∀ above e below, Innermost (loc.normalize name) h.elementStack above e below →
    ∃ h', h.endElement name = .ok h' ∧ h'.elementStack = below
  of_not_open : (∀ e ∈ h.elementStack, e.nodeName ≠ loc.normalize name) →
    (after (h.endElement name)).elementStack = h.elementStack

/-- Only elements whose end may be omitted lie above the innermost one of the name; if there is
none, no such element is on top. -/
def EndsCleanly (h : HtmlTreeHandler loc) (name : List Char) : Prop :=
  (∃ above e below, Innermost (loc.normalize name) h.elementStack above e below ∧
    ∀ x ∈ above, x.nodeName ∈ optionalElements) ∨
  (∀ e ∈ h.elementStack, e.nodeName ≠ loc.normalize name) ∧
    ∀ last ∈ h.elementStack.head?, last.nodeName ∉ optionalElements

/-- Below an element whose end may not be omitted, and below at least two more, lies the innermost
one of the name, and not at the bottom. -/
def EndsFarBelow (h : HtmlTreeHandler loc) (name : List Char) : Prop :=
  ∃ skipped last between e below,
    Innermost (loc.normalize name) h.elementStack (skipped ++ last :: between) e below ∧
      (∀ x ∈ skipped, x.nodeName ∈ optionalElements) ∧ last.nodeName ∉ optionalElements ∧
        2 ≤ between.length ∧ below ≠ []

theorem search_of_ne {n : List Char} {between : List (Element loc)}
    (hbetween : ∀ x ∈ between, x.nodeName ≠ n) (he : e.nodeName = n) :
    search n (between ++ e :: below) = some (between.length, below) := by
  induction between with
  | nil => rw [List.nil_append, search, if_pos he, List.length_nil]
  | cons x between ih =>
    obtain ⟨hx, hbetween⟩ := List.forall_mem_cons.1 hbetween
    rw [List.cons_append, search, if_neg hx, ih hbetween]
    rfl

theorem search_eq_none {n : List Char} {stack : List (Element loc)}
    (hstack : ∀ x ∈ stack, x.nodeName ≠ n) : search n stack = none := by
  induction stack with
  | nil => rfl
  | cons x stack ih =>
    obtain ⟨hx, hstack⟩ := List.forall_mem_cons.1 hstack
    rw [search, if_neg hx, ih hstack]
    rfl

theorem Innermost.search_eq {n : List Char} {stack above : List (Element loc)}
    (hin : Innermost n stack above e below) : search n stack = some (above.length, below) := by
  rw [hin.stack_eq]
  exact search_of_ne hin.ne_of_mem hin.nodeName_eq

/-- Whether an element of the name is open. -/
theorem innermost_or (n : List Char) (stack : List (Element loc)) :
    (∃ above e below, Innermost n stack above e below) ∨ ∀ e ∈ stack, e.nodeName ≠ n := by
  induction stack with
  | nil => exact .inr fun e he ↦ absurd he List.not_mem_nil
  | cons x stack ih =>
    by_cases hx : x.nodeName = n
    · exact .inl ⟨[], x, stack, rfl, hx, fun e he ↦ absurd he List.not_mem_nil⟩
    · obtain ⟨above, e, below, hin⟩ | hnone := ih
      · exact .inl ⟨x :: above, e, below, by rw [hin.stack_eq]; rfl, hin.nodeName_eq,
          List.forall_mem_cons.2 ⟨hx, hin.ne_of_mem⟩⟩
      · exact .inr (List.forall_mem_cons.2 ⟨hx, hnone⟩)

theorem dropWhile_skipped {n : List Char} {skipped : List (Element loc)}
    (hskipped : ∀ x ∈ skipped, x.nodeName ≠ n ∧ x.nodeName ∈ optionalElements)
    (hlast : ¬(last.nodeName ≠ n ∧ last.nodeName ∈ optionalElements)) :
    (skipped ++ last :: rest).dropWhile (Skipped n) = last :: rest := by
  rw [List.dropWhile_append_of_pos fun x hx ↦ by simpa [Skipped] using hskipped x hx,
    List.dropWhile_cons_of_neg (by simpa [Skipped] using hlast)]

theorem exists_endElement_eq (name : List Char) (hne : h.elementStack ≠ []) :
    ∃ n, h.endElement name = endWithin (n + 2) name h := by
  obtain ⟨e, rest, hstack⟩ := List.exists_cons_of_ne_nil hne
  refine ⟨rest.length, ?_⟩
  rw [endElement, hstack, List.length_cons]

/-! ### What is closed -/

/-- Only elements that are skipped lie above the one of the name. -/
theorem endElement_of_optional {above : List (Element loc)}
    (hin : Innermost (loc.normalize name) h.elementStack above e below)
    (habove : ∀ x ∈ above, x.nodeName ∈ optionalElements) :
    h.endElement name = .ok { h with elementStack := below } := by
  have hne : h.elementStack ≠ [] := by simp [hin.stack_eq]
  obtain ⟨n, hn⟩ := exists_endElement_eq name hne
  have hdrop : h.elementStack.dropWhile (Skipped (loc.normalize name)) = e :: below := by
    rw [hin.stack_eq]
    exact dropWhile_skipped (fun x hx ↦ ⟨hin.ne_of_mem x hx, habove x hx⟩) fun hskip ↦
      hskip.1 hin.nodeName_eq
  rw [hn, endWithin_of_top hdrop hin.nodeName_eq]

/-- No element is of the name, and the one on top is not skipped. -/
theorem after_endElement_of_not_open (hnone : ∀ e ∈ h.elementStack, e.nodeName ≠ loc.normalize name)
    (htop : ∀ last ∈ h.elementStack.head?, last.nodeName ∉ optionalElements) :
    (after (h.endElement name)).elementStack = h.elementStack := by
  cases hstack : h.elementStack with
  | nil =>
    rw [endElement, endWithin]
    dsimp only
    rw [if_pos hstack]
    exact hstack
  | cons last below =>
    rw [hstack] at hnone htop
    obtain ⟨hlast, hbelow⟩ := List.forall_mem_cons.1 hnone
    obtain ⟨n, hn⟩ := exists_endElement_eq (h := h) name (by simp [hstack])
    have hdrop : h.elementStack.dropWhile (Skipped (loc.normalize name)) = last :: below := by
      rw [hstack]
      exact List.dropWhile_cons_of_neg (by simpa [Skipped] using fun _ ↦ htop last rfl)
    rw [hn, endWithin_of_mismatch hdrop hlast, recover]
    dsimp only
    rw [List.tail_cons, search_eq_none hbelow]
    rfl

/-- If no element is of the name, those on top whose end may be omitted are closed. -/
theorem after_endElement_ne_of_not_open
    (hnone : ∀ e ∈ h.elementStack, e.nodeName ≠ loc.normalize name) {e : Element loc}
    {rest : List (Element loc)} (hstack : h.elementStack = e :: rest)
    (he : e.nodeName ∈ optionalElements) :
    (after (h.endElement name)).elementStack ≠ h.elementStack := by
  obtain ⟨n, hn⟩ := exists_endElement_eq (h := h) name (by simp [hstack])
  have hskip : Skipped (loc.normalize name) e := by
    simpa [Skipped, he] using hnone e (by simp [hstack])
  have hsuffix : h.elementStack.dropWhile (Skipped (loc.normalize name)) <:+ rest := by
    rw [hstack, List.dropWhile_cons_of_pos hskip]
    exact List.dropWhile_suffix _
  have hne : ∀ stack, stack <:+ rest → stack ≠ h.elementStack := by
    rintro stack hle rfl
    have hlength := hle.length_le
    rw [hstack, List.length_cons] at hlength
    omega
  cases hdrop : h.elementStack.dropWhile (Skipped (loc.normalize name)) with
  | nil =>
    rw [hn, endWithin_of_nil (by simp [hstack]) hdrop]
    exact hne [] (List.nil_suffix)
  | cons last below =>
    rw [hdrop] at hsuffix
    have hmem : ∀ x ∈ last :: below, x.nodeName ≠ loc.normalize name := fun x hx ↦
      hnone x (by rw [hstack]; exact List.mem_cons_of_mem _ (hsuffix.subset hx))
    obtain ⟨hlast, hbelow⟩ := List.forall_mem_cons.1 hmem
    rw [hn, endWithin_of_mismatch hdrop hlast, recover]
    dsimp only
    rw [List.tail_cons, search_eq_none hbelow]
    exact hne _ hsuffix

/-- The first of the elements whose end may not be omitted. -/
theorem optional_or (above : List (Element loc)) :
    (∀ x ∈ above, x.nodeName ∈ optionalElements) ∨ ∃ skipped last between,
      above = skipped ++ last :: between ∧ (∀ x ∈ skipped, x.nodeName ∈ optionalElements) ∧
        last.nodeName ∉ optionalElements := by
  induction above with
  | nil => exact .inl fun x hx ↦ absurd hx List.not_mem_nil
  | cons x above ih =>
    by_cases hx : x.nodeName ∈ optionalElements
    · obtain hall | ⟨skipped, last, between, rfl, hskipped, hlast⟩ := ih
      · exact .inl (List.forall_mem_cons.2 ⟨hx, hall⟩)
      · exact .inr ⟨x :: skipped, last, between, rfl, List.forall_mem_cons.2 ⟨hx, hskipped⟩, hlast⟩
    · exact .inr ⟨[], x, above, rfl, fun y hy ↦ absurd hy List.not_mem_nil, hx⟩

/-- Below an element whose end may not be omitted, the one of the name is closed only if it lies far
below. -/
theorem endElement_ne_of_not_optional {skipped between : List (Element loc)}
    (hin : Innermost (loc.normalize name) h.elementStack (skipped ++ last :: between) e below)
    (hskipped : ∀ x ∈ skipped, x.nodeName ∈ optionalElements)
    (hlast : last.nodeName ∉ optionalElements) (hfar : between.length < 2 ∨ below = [])
    (h' : HtmlTreeHandler loc) (hend : h.endElement name = .ok h') : h'.elementStack ≠ below := by
  have hne : h.elementStack ≠ [] := by simp [hin.stack_eq]
  obtain ⟨n, hn⟩ := exists_endElement_eq name hne
  have hall := List.forall_mem_append.1 hin.ne_of_mem
  obtain ⟨hname, hbetween⟩ := List.forall_mem_cons.1 hall.2
  have hdrop : h.elementStack.dropWhile (Skipped (loc.normalize name)) =
      last :: (between ++ e :: below) := by
    rw [hin.stack_eq, List.append_assoc]
    exact dropWhile_skipped (fun x hx ↦ ⟨hall.1 x hx, hskipped x hx⟩) fun hskip ↦ hlast hskip.2
  rw [hn, endWithin_of_mismatch hdrop hname, recover] at hend
  dsimp only at hend
  rw [List.tail_cons, search_of_ne hbetween hin.nodeName_eq] at hend
  cases below with
  | nil =>
    dsimp only at hend
    split_ifs at hend
    obtain rfl := Except.ok.inj hend
    exact List.cons_ne_nil _ _
  | cons b below =>
    dsimp only at hend
    have hlt := hfar.resolve_right (List.cons_ne_nil _ _)
    have hstack : h'.elementStack = e :: b :: below := by
      match between, hlt with
      | [], _ =>
        obtain rfl := Except.ok.inj hend
        rfl
      | [x], _ =>
        rw [List.length_singleton, closeMissing, endWithin_top rfl] at hend
        obtain rfl := Except.ok.inj hend
        rfl
    rw [hstack]
    exact fun heq ↦ absurd (congrArg List.length heq) (by simp)

/-- A tag closes what it should where the ends above it may be omitted. -/
theorem closes_of_endsCleanly (hclean : h.EndsCleanly name) : h.Closes name := by
  obtain ⟨above, e, below, hin, habove⟩ | ⟨hnone, htop⟩ := hclean
  · refine ⟨fun above' e' below' hin' ↦ ?_, fun hnone ↦ ?_⟩
    · have hsearch := hin.search_eq.symm.trans hin'.search_eq
      obtain rfl := (Prod.mk.inj (Option.some.inj hsearch)).2
      exact ⟨_, endElement_of_optional hin habove, rfl⟩
    · exact absurd hin.nodeName_eq (hnone e (by simp [hin.stack_eq]))
  · refine ⟨fun above e below hin ↦ ?_, fun _ ↦ after_endElement_of_not_open hnone htop⟩
    exact absurd hin.nodeName_eq (hnone e (by simp [hin.stack_eq]))

/-- If a tag closes what it should, the ends above it may be omitted, or it lies far below one whose
end may not. -/
theorem endsCleanly_or_of_closes (hcloses : h.Closes name) :
    h.EndsCleanly name ∨ h.EndsFarBelow name := by
  obtain ⟨above, e, below, hin⟩ | hnone := innermost_or (loc.normalize name) h.elementStack
  · obtain habove | ⟨skipped, last, between, rfl, hskipped, hlast⟩ := optional_or above
    · exact .inl (.inl ⟨above, e, below, hin, habove⟩)
    · obtain ⟨h', hend, hbelow⟩ := hcloses.of_open _ e below hin
      refine .inr ⟨skipped, last, between, e, below, hin, hskipped, hlast, ?_⟩
      by_contra hnear
      refine endElement_ne_of_not_optional hin hskipped hlast ?_ h' hend hbelow
      rw [not_and_or, not_not, not_le] at hnear
      exact hnear
  · refine .inl (.inr ⟨hnone, fun last hlast hoptional ↦ ?_⟩)
    cases hstack : h.elementStack with
    | nil =>
      rw [hstack] at hlast
      cases hlast
    | cons e rest =>
      rw [hstack] at hlast
      obtain rfl := Option.some.inj hlast
      exact after_endElement_ne_of_not_open hnone hstack hoptional (hcloses.of_not_open hnone)

/-- Closing tags: `EndsCleanly` is enough, and needed unless the element of the name lies far below
one whose end may not be omitted. -/
theorem closes_iff (h : HtmlTreeHandler loc) (name : List Char) :
    (h.EndsCleanly name → h.Closes name) ∧
      (¬ h.EndsFarBelow name → (h.Closes name ↔ h.EndsCleanly name)) :=
  ⟨closes_of_endsCleanly, fun hfar ↦
    ⟨fun hcloses ↦ (endsCleanly_or_of_closes hcloses).resolve_right hfar, closes_of_endsCleanly⟩⟩

/-- An element without attributes. -/
def plain (index : ℕ) (name : List Char)
    (hname : asciiLocale.normalize name = name) : Element asciiLocale :=
  ⟨index, name, [], hname⟩

/-- `<div><span><b>` -/
def nested : HtmlTreeHandler asciiLocale :=
  { new with elementStack := [plain 2 ['b'] (by decide), plain 1 ['s', 'p', 'a', 'n'] (by decide),
      plain 0 ['d', 'i', 'v'] (by decide)] }

/-- After `</span>`, the element `span` is still open. -/
theorem not_closes_nested : ¬ nested.Closes ['s', 'p', 'a', 'n'] := by
  intro hcloses
  obtain ⟨h', hend, hbelow⟩ := hcloses.of_open [plain 2 ['b'] (by decide)] _
    [plain 0 ['d', 'i', 'v'] (by decide)] ⟨rfl, by decide, by decide⟩
  have hstack : (after (nested.endElement ['s', 'p', 'a', 'n'])).elementStack.length = 2 := by
    decide
  rw [hend, after, hbelow] at hstack
  cases hstack

end HtmlTreeHandler

end JPype.Html
