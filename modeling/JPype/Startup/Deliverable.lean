import JPype.Startup.Specified

/-!
# When the class path is delivered

`StartRequest.Sound` collects what has to be right about a call, besides that there is no conflict:
the text that is taken for the class path is that of an option, a text of several elements has no
`*` at the end of one, and what is passed directly has no empty element. Such a call gets what it
asks for on every machine (`StartRequest.Sound.delivers`).
-/

namespace JPype

open Foundation

variable {os : OS} {c : StartRequest}

/-- No element of a text ends in `*`, unless it is the whole text. -/
def PlainText (os : OS) (text : Text) : Prop :=
  ∀ element ∈ fields os.pathsep text, IsWild element → element = text

/-- One of the texts is not ASCII, and stays as it is. -/
def NonAscii (texts : List Text) : Prop :=
  ∃ text ∈ texts, ¬IsWild text ∧ ¬IsAscii text

namespace StartRequest

/-- The system class loader that is given is in conflict with the class path on every machine. -/
structure LoaderConflict (os : OS) (c : StartRequest) : Prop where
  loaderRead : c.LoaderRead
  loaderGiven : c.LoaderGiven
  read : NonAscii (c.read os)
  elements : NonAscii (c.elements os)

/-- The first argument with a value after the text `-Djava.class.path=` is that option. -/
def TakesOption (c : StartRequest) : Prop :=
  ∀ a ∈ c.vmArgs.find? fun a ↦ (a.value classPathVar).isSome, (a.optionValue classPathVar).isSome

/-- Nothing in a call goes wrong. -/
structure Sound (os : OS) (c : StartRequest) : Prop where
  option : c.TakesOption
  /-- The same for the class loader, where the argument need not be the first. -/
  loader : c.LoaderRead → c.LoaderGiven
  /-- The option does not have two values that differ. -/
  same : (c.optionValues classPathVar).head?.map (fields os.pathsep) =
    (c.optionValues classPathVar).getLast?.map (fields os.pathsep)
  plain : ∀ text ∈ c.read os, PlainText os text
  /-- What may be passed directly has no empty element, and is not replaced. -/
  direct : NonAscii (c.read os) ∨
    (∀ text ∈ c.read os, ¬IsWild text → text = [] ∨ [] ∉ text.splitOn os.pathsep) ∧
      property "jpype.class.path".toList c.vmArgs = none

/-- A call that raises for a conflict or gets what it asks for, on every machine. -/
def Deliverable (os : OS) (c : StartRequest) : Prop :=
  c.PathTwice ∨ c.ClassPathTwice ∨
    ¬c.FoundTwice ∧ (c.IllTyped ∨ c.LoaderConflict os ∨ c.Sound os)

end StartRequest

/-! ### Wildcards -/

theorem OS.pathsep_ne_star (os : OS) : os.pathsep ≠ '*' := by
  cases os <;> decide

theorem IsWild.ne_nil {text : Text} (h : IsWild text) : text ≠ [] := by
  rintro rfl
  exact Option.some_ne_none _ h.symm

theorem IsWild.cons {text : Text} (h : IsWild text) (x : Char) : IsWild (x :: text) := by
  rw [IsWild, List.getLast?_cons, h]
  rfl

/-- The last element of a text that ends in `*` does too. -/
theorem exists_isWild_of_isWild (os : OS) {text : Text} (h : IsWild text) :
    ∃ element ∈ fields os.pathsep text, IsWild element := by
  induction text with
  | nil => exact absurd rfl h.ne_nil
  | cons x text ih =>
    obtain rfl | hne := eq_or_ne text []
    · obtain rfl : x = '*' := Option.some.inj h
      exact ⟨['*'], by rw [fields_of_notMem (by simp [os.pathsep_ne_star]) (by simp)]; simp, h⟩
    · have hwild : IsWild text := by
        rw [IsWild, List.getLast?_eq_some_getLast hne]
        rw [IsWild, List.getLast?_eq_some_getLast (List.cons_ne_nil _ _),
          List.getLast_cons hne] at h
        exact h
      obtain ⟨element, he, hew⟩ := ih hwild
      have hsplit := (mem_fields.1 he).1
      simp only [mem_fields, List.splitOn_cons_eq_if_modifyHead]
      split
      · exact ⟨element, ⟨List.mem_cons_of_mem _ hsplit, hew.ne_nil⟩, hew⟩
      · have hparts := List.splitOn_ne_nil os.pathsep text
        generalize text.splitOn os.pathsep = parts at *
        cases parts with
        | nil => exact absurd rfl hparts
        | cons part parts =>
          obtain rfl | hmem := List.mem_cons.1 hsplit
          · exact ⟨x :: element, ⟨List.mem_cons_self, List.cons_ne_nil _ _⟩, hew.cons x⟩
          · exact ⟨element, ⟨List.mem_cons_of_mem _ hmem, hew.ne_nil⟩, hew⟩

theorem PlainText.notMem_of_isWild {text : Text} (h : PlainText os text) (hw : IsWild text) :
    os.pathsep ∉ text := by
  obtain ⟨element, he, hew⟩ := exists_isWild_of_isWild os hw
  rw [← h element he hew]
  exact notMem_of_mem_splitOn (mem_fields.1 he).1

theorem expand_of_not_isWild {glob : Text → List Text} {text : Text} (h : ¬IsWild text) :
    expand glob text = [text] :=
  if_neg h

/-- It makes no difference whether a plain text is expanded before it is split or after. -/
theorem PlainText.flatMap_fields {text : Text} (h : PlainText os text) (host : Host os) :
    (expand host.glob text).flatMap (fields os.pathsep) =
      (fields os.pathsep text).flatMap (expand host.glob) := by
  by_cases hw : IsWild text
  · rw [fields_of_notMem (h.notMem_of_isWild hw) hw.ne_nil, List.flatMap_singleton]
    have hjars : ∀ jar ∈ expand host.glob text, fields os.pathsep jar = [jar] := by
      intro jar hjar
      rw [expand, if_pos hw] at hjar
      obtain ⟨hne, hsep⟩ := host.glob_nameable _ jar hjar
      exact fields_of_notMem hsep hne
    rw [List.flatMap_congr hjars, List.flatMap_singleton']
  · rw [expand_of_not_isWild hw, List.flatMap_singleton]
    have helements : ∀ element ∈ fields os.pathsep text, expand host.glob element = [element] := by
      intro element he
      refine expand_of_not_isWild fun hew ↦ hw ?_
      rwa [h element he hew] at hew
    rw [List.flatMap_congr helements, List.flatMap_singleton']

/-! ### The default -/

section

variable {Path : Type*} {lib : PathLib Path} {classPaths : List Path} {envPath : Option Text}
  {env : Bool}

/-- The default class path consists of its entries, if these can be named. -/
theorem fields_getClassPath (h : ∀ path ∈ classPathEntries os lib classPaths envPath env,
    lib.str path ≠ [] ∧ os.pathsep ∉ lib.str path) :
    fields os.pathsep (getClassPath os lib classPaths envPath env) =
      (classPathEntries os lib classPaths envPath env).map lib.str := by
  rw [getClassPath, fields_intercalate, List.flatMap_map, List.map_eq_flatMap]
  exact List.flatMap_congr fun path hpath ↦ fields_of_notMem (h path hpath).2 (h path hpath).1

/-- It is plain unless one of several entries ends in `*`: only `*` itself is replaced by then. -/
theorem plainText_getClassPath (h : ∀ path ∈ classPathEntries os lib classPaths envPath env,
    lib.str path ≠ [] ∧ os.pathsep ∉ lib.str path)
    (hwild : ∀ path ∈ classPathEntries os lib classPaths envPath env, ¬IsWild (lib.str path)) :
    PlainText os (getClassPath os lib classPaths envPath env) := by
  intro element he hew
  rw [fields_getClassPath h] at he
  obtain ⟨path, hpath, rfl⟩ := List.mem_map.1 he
  exact absurd hew (hwild path hpath)

end

/-! ### The argument that is taken -/

section

variable {args : List JvmArg}

/-- Either no argument is taken, or the first one that has a value. -/
theorem exists_eraseP (args : List JvmArg) (p : JvmArg → Bool) :
    args.eraseP p = args ∧ args.find? p = none ∨
      ∃ a before after, args.find? p = some a ∧ args = before ++ a :: after ∧
        args.eraseP p = before ++ after := by
  cases hfind : args.find? p with
  | none => exact .inl ⟨List.eraseP_of_forall_not (List.find?_eq_none.1 hfind), rfl⟩
  | some a =>
    obtain ⟨hp, before, after, rfl, hbefore⟩ := List.find?_eq_some_iff_append.1 hfind
    refine .inr ⟨a, before, after, rfl, rfl, ?_⟩
    rw [List.eraseP_append_right _ (by simpa using hbefore), List.eraseP_cons_of_pos hp]

/-- An argument that does not matter to `f` may be taken away. -/
theorem filterMap_eraseP {β : Type*} {p : JvmArg → Bool} {f : JvmArg → Option β}
    (h : ∀ a ∈ args.find? p, f a = none) :
    (args.eraseP p).filterMap f = args.filterMap f := by
  obtain ⟨heq, -⟩ | ⟨a, before, after, hfind, heq, herase⟩ := exists_eraseP args p
  · rw [heq]
  · rw [herase, heq, List.filterMap_append, List.filterMap_append,
      List.filterMap_cons_none (h a hfind)]

theorem JvmArg.isClassPath_of_optionValue {a : JvmArg}
    (h : (a.optionValue classPathVar).isSome) : a.IsClassPath := by
  obtain ⟨value, hvalue⟩ := Option.isSome_iff_exists.1 h
  obtain ⟨-, rfl⟩ := optionValue_eq_some.1 hvalue
  exact List.prefix_append _ _

theorem JvmArg.property_of_optionValue {a : JvmArg}
    (h : (a.optionValue classPathVar).isSome) :
    a.property "jpype.class.path".toList = none := by
  obtain ⟨value, hvalue⟩ := Option.isSome_iff_exists.1 h
  obtain ⟨-, rfl⟩ := optionValue_eq_some.1 hvalue
  rfl

/-- No argument is an option for the class path and one for the class loader. -/
theorem JvmArg.loaderValue_of_optionValue {a : JvmArg}
    (h : (a.optionValue classPathVar).isSome) :
    a.optionValue loaderVar = none := by
  obtain ⟨value, hvalue⟩ := Option.isSome_iff_exists.1 h
  obtain ⟨-, rfl⟩ := optionValue_eq_some.1 hvalue
  rfl

theorem otherArgs_append (args args' : List JvmArg) :
    otherArgs (args ++ args') = otherArgs args ++ otherArgs args' :=
  List.filter_append _ _

end

namespace StartRequest

theorem foundTwice_of_classPathTwice (h : c.ClassPathTwice) : c.FoundTwice := by
  refine ⟨?_, h.2⟩
  obtain ⟨value, hvalue⟩ := List.exists_mem_of_ne_nil _ h.1
  obtain ⟨a, ha, hoption⟩ := List.mem_filterMap.1 hvalue
  rw [found, List.findSome?_isSome_iff]
  exact ⟨a, ha, by rw [JvmArg.value_of_optionValue hoption]; rfl⟩

/-- The texts that are joined. -/
theorem mem_texts_joined {host : Host os} {text : Text} :
    text ∈ (((c.read os).flatMap (expand host.glob) ++ [host.supportLib]).filter fun pth ↦
        !pth.isEmpty) ↔
      (text ∈ c.read os ∧ ¬IsWild text ∧ text ≠ []) ∨
        (∃ wild ∈ c.read os, IsWild wild ∧ text ∈ host.glob (wild ++ ".jar".toList)) ∨
          text = host.supportLib := by
  rw [List.mem_filter, List.mem_append, List.mem_flatMap, List.mem_singleton]
  constructor
  · rintro ⟨⟨wild, hwild, htext⟩ | rfl, hne⟩
    · rw [expand] at htext
      split_ifs at htext with hw
      · exact .inr (.inl ⟨wild, hwild, hw, htext⟩)
      · rw [List.mem_singleton.1 htext] at hne ⊢
        exact .inl ⟨hwild, hw, by simpa using hne⟩
    · exact .inr (.inr rfl)
  · rintro (⟨htext, hw, hne⟩ | ⟨wild, hwild, hw, htext⟩ | rfl)
    · refine ⟨.inl ⟨text, htext, ?_⟩, by simpa using hne⟩
      rw [expand_of_not_isWild hw]
      exact List.mem_singleton_self _
    · refine ⟨.inl ⟨wild, hwild, ?_⟩, by simpa using (host.glob_nameable _ _ htext).1⟩
      rwa [expand, if_pos hw]
    · exact ⟨.inr rfl, by simpa using host.supportLib_nameable.1⟩

/-- There is an empty element in the class path if there is one in a text that stays as it is. -/
theorem nil_mem_splitOn_joined {host : Host os} :
    [] ∈ (c.joined host).splitOn os.pathsep ↔
      ∃ text ∈ c.read os, ¬IsWild text ∧ text ≠ [] ∧ [] ∈ text.splitOn os.pathsep := by
  have hnameable : ∀ text : Text, text ≠ [] ∧ os.pathsep ∉ text → [] ∉ text.splitOn os.pathsep := by
    intro text ⟨hne, hsep⟩ hmem
    rw [List.splitOn_eq_singleton hsep, List.mem_singleton] at hmem
    exact hne hmem.symm
  rw [splitOn_joined, List.mem_flatMap]
  constructor
  · rintro ⟨text, htext, hnil⟩
    obtain ⟨htext, hw, hne⟩ | ⟨wild, -, -, htext⟩ | rfl := mem_texts_joined.1 htext
    · exact ⟨text, htext, hw, hne, hnil⟩
    · exact absurd hnil (hnameable _ (host.glob_nameable _ _ htext))
    · exact absurd hnil (hnameable _ host.supportLib_nameable)
  · rintro ⟨text, htext, hw, hne, hnil⟩
    exact ⟨text, mem_texts_joined.2 (.inl ⟨htext, hw, hne⟩), hnil⟩

theorem isAscii_joined {host : Host os} :
    IsAscii (c.joined host) ↔ ¬NonAscii (c.read os) ∧ IsAscii host.supportLib ∧
      ∀ wild ∈ c.read os, IsWild wild → ∀ jar ∈ host.glob (wild ++ ".jar".toList), IsAscii jar := by
  rw [joined, Host.joinClassPath, IsAscii,
    forall_mem_intercalate (P := fun x : Char ↦ x.toNat < 0x80) os.isAscii_pathsep]
  constructor
  · intro h
    refine ⟨?_, h _ (mem_texts_joined.2 (.inr (.inr rfl))), fun wild hwild hw jar hjar ↦
      h _ (mem_texts_joined.2 (.inr (.inl ⟨wild, hwild, hw, hjar⟩)))⟩
    rintro ⟨text, htext, hw, ha⟩
    refine ha (h text (mem_texts_joined.2 (.inl ⟨htext, hw, ?_⟩)))
    rintro rfl
    exact ha fun x hx ↦ absurd hx List.not_mem_nil
  · rintro ⟨hread, hlib, hjars⟩ text htext
    obtain ⟨htext, hw, -⟩ | ⟨wild, hwild, hw, htext⟩ | rfl := mem_texts_joined.1 htext
    · exact not_not.1 fun ha ↦ hread ⟨text, htext, hw, ha⟩
    · exact hjars wild hwild hw text htext
    · exact hlib

/-- Nothing else is in conflict. -/
theorem Accepted.not_realConflict (h : c.Accepted) {host : Host os}
    (hl : c.LoaderGiven → ∀ element ∈ specified host c, IsAscii element) (e : PyError) :
    ¬RealConflict host c e := by
  rintro (hpath | htwice | hobject | ⟨hcp, -, htexts⟩ | ⟨hgiven, he, ha⟩)
  · exact h.path hpath
  · exact h.found (foundTwice_of_classPathTwice htwice)
  · exact h.typed ⟨_, hobject, rfl⟩
  · exact h.typed ⟨_, hcp, htexts⟩
  · exact ha (hl hgiven _ he)

namespace TakesOption

variable (h : c.TakesOption)

include h

theorem otherArgs_remaining : otherArgs c.remaining = otherArgs c.vmArgs := by
  obtain ⟨heq, -⟩ | ⟨a, before, after, hfind, heq, herase⟩ := exists_eraseP c.vmArgs
    fun a ↦ (a.value classPathVar).isSome
  · rw [remaining, heq]
  · have ha : otherArgs [a] = [] := by
      simp [otherArgs, JvmArg.isClassPath_of_optionValue (h a hfind)]
    rw [remaining, herase, heq, otherArgs_append, List.append_cons, otherArgs_append,
      otherArgs_append, ha, List.append_nil]

theorem property_remaining :
    property "jpype.class.path".toList c.remaining =
      property "jpype.class.path".toList c.vmArgs := by
  rw [property, remaining, filterMap_eraseP fun a ha ↦ JvmArg.property_of_optionValue (h a ha),
    property]

/-- The search for the option finds the first one that has a value. -/
theorem found_eq : c.found = (c.optionValues classPathVar).head? := by
  rw [optionValues, List.head?_filterMap, found]
  have hoption := h
  unfold TakesOption at hoption
  generalize c.vmArgs = args at hoption
  induction args with
  | nil => rfl
  | cons a args ih =>
    rw [List.findSome?_cons, List.findSome?_cons]
    cases hvalue : a.value classPathVar with
    | none =>
      have hnone : a.optionValue classPathVar = none := by
        rw [Option.eq_none_iff_forall_ne_some]
        intro value heq
        rw [JvmArg.value_of_optionValue heq] at hvalue
        exact Option.some_ne_none _ hvalue
      rw [hnone]
      refine ih fun a' ha' ↦ hoption a' ?_
      rw [List.find?_cons_of_neg (by simp [hvalue])]
      exact ha'
    | some value =>
      obtain ⟨value', hvalue'⟩ := Option.isSome_iff_exists.1
        (hoption a (List.find?_cons_of_pos (by simp [hvalue])))
      rw [hvalue']
      exact (hvalue.symm.trans (JvmArg.value_of_optionValue hvalue'))

/-- A class loader that is given is read. -/
theorem loaderRead (hl : c.LoaderGiven) : c.LoaderRead := by
  obtain ⟨value, hvalue⟩ := List.exists_mem_of_ne_nil _ hl
  have hremaining : value ∈ c.remaining.filterMap
      (JvmArg.optionValue loaderVar) := by
    rw [remaining, filterMap_eraseP fun a ha ↦ JvmArg.loaderValue_of_optionValue (h a ha)]
    exact hvalue
  obtain ⟨a, ha, hoption⟩ := List.mem_filterMap.1 hremaining
  rw [LoaderRead, List.findSome?_isSome_iff]
  exact ⟨a, ha, by rw [JvmArg.value_of_optionValue hoption]; rfl⟩

end TakesOption

namespace Sound

variable (h : c.Sound os)

include h

/-- What is read are the elements that are asked for. -/
theorem fields_read : (c.read os).flatMap (fields os.pathsep) = c.elements os := by
  have hsame := h.same
  rw [read, elements, h.option.found_eq]
  cases hhead : (c.optionValues classPathVar).head? with
  | none => rw [List.head?_eq_none_iff.1 hhead, List.getLast?_nil]
  | some first =>
    rw [hhead] at hsame
    obtain ⟨last, hlast, hfields⟩ := Option.map_eq_some_iff.1 hsame.symm
    rw [hlast]
    show (first.splitOn os.pathsep).flatMap _ = (last.splitOn os.pathsep).flatMap _
    rw [flatMap_fields_splitOn, flatMap_fields_splitOn, hfields]

/-- So the class path that is passed is the one that is asked for. -/
theorem fields_joined (host : Host os) :
    fields os.pathsep (c.joined host) = specified host c := by
  rw [StartRequest.fields_joined, specified, ← h.fields_read, List.flatMap_assoc]
  exact congrArg (· ++ _)
    (List.flatMap_congr fun text htext ↦ (h.plain text htext).flatMap_fields host)

end Sound

/-- A call in which nothing goes wrong gets what it asks for, on every machine. -/
theorem Sound.delivers (hs : c.Sound os) (h : c.Accepted) (host : Host os) :
    DeliversClassPath host c := by
  have hascii : IsAscii (c.joined host) ↔ ∀ element ∈ specified host c, IsAscii element := by
    rw [isAscii_iff_fields os, hs.fields_joined host]
  have hothers : ∀ extra, otherArgs c.vmArgs <+: otherArgs (c.remaining ++ extra) := by
    intro extra
    rw [otherArgs_append, hs.option.otherArgs_remaining]
    exact List.prefix_append _ _
  by_cases ha : IsAscii (c.joined host)
  · obtain ⟨path, hstart⟩ := h.startJVM_direct ha
    rw [DeliversClassPath, hstart]
    refine ⟨h.not_realConflict fun _ ↦ hascii.1 ha, ?_, hothers _⟩
    -- what is passed directly is read with its empty elements
    obtain hread | ⟨hempty, hproperty⟩ := hs.direct
    · exact absurd hread (isAscii_joined.1 ha).1
    · rw [effectiveClassPath_direct os _ (hs.option.property_remaining.trans hproperty),
        ← hs.fields_joined host, fields_eq_splitOn]
      rw [nil_mem_splitOn_joined]
      rintro ⟨text, htext, hw, hne, hnil⟩
      exact (hempty text htext hw).elim hne fun hnot ↦ hnot hnil
  · by_cases hl : c.LoaderRead
    · rw [DeliversClassPath, h.startJVM_refused ha hl]
      rw [hascii] at ha
      simp only [not_forall, exists_prop] at ha
      obtain ⟨element, he, hea⟩ := ha
      exact .loader (hs.loader hl) he hea
    · obtain ⟨path, lib, hstart⟩ := h.startJVM_quoted ha hl
      rw [DeliversClassPath, hstart]
      have hgiven : ¬c.LoaderGiven := fun hgiven ↦ hl (hs.option.loaderRead hgiven)
      refine ⟨h.not_realConflict fun hgiven' ↦ absurd hgiven' hgiven, ?_, hothers _⟩
      rw [effectiveClassPath_quoted, hs.fields_joined host]

/-- A class loader that is always in conflict is always refused. -/
theorem LoaderConflict.delivers (hc : c.LoaderConflict os) (h : c.Accepted) (host : Host os) :
    DeliversClassPath host c := by
  obtain ⟨element, he, hw, hea⟩ := hc.elements
  have hascii : ¬IsAscii (c.joined host) := fun ha ↦ (isAscii_joined.1 ha).1 hc.read
  rw [DeliversClassPath, h.startJVM_refused hascii hc.loaderRead]
  refine .loader hc.loaderGiven (List.mem_append_left _ (List.mem_flatMap.2 ⟨element, he, ?_⟩)) hea
  rw [expand_of_not_isWild hw]
  exact List.mem_singleton_self _

/-- The conditions are enough. -/
theorem Deliverable.delivers (h : c.Deliverable os) (host : Host os) :
    DeliversClassPath host c := by
  by_cases hpath : c.PathTwice
  · rw [DeliversClassPath, startJVM_of_pathTwice host hpath]
    exact .jvmpath hpath
  obtain hpath' | htwice | ⟨hfound, hrest⟩ := h
  · exact absurd hpath' hpath
  · rw [DeliversClassPath, startJVM_of_foundTwice host hpath (foundTwice_of_classPathTwice htwice)]
    exact .classpath htwice
  by_cases htyped : c.IllTyped
  · obtain ⟨classpath, hclasspath, htexts⟩ := htyped
    rw [DeliversClassPath, startJVM_of_illTyped host hpath hfound hclasspath htexts]
    split_ifs with hobject
    · exact .notIterable (hclasspath.trans (congrArg some hobject))
    · exact .element hclasspath hobject htexts
  obtain hill | hconflict | hsound := hrest
  · exact absurd hill htyped
  · exact hconflict.delivers ⟨hpath, hfound, htyped⟩ host
  · exact hsound.delivers ⟨hpath, hfound, htyped⟩ host

end StartRequest

end JPype
