import JPype.Startup.Deliverable
import Mathlib.Algebra.Order.BigOperators.Group.List

/-!
# Machines that tell class paths apart

The conditions of `StartRequest.Deliverable` are also necessary. On the machine `Host.probe` a
pattern is matched by one jar, whose name tells the pattern, so that a class path can be read off
from what is passed; and a pattern that is more than one element is matched by nothing, since no
path can hold a separator.

`StartRequest.deliversClassPath_iff` puts both directions together. In `not_deliversClassPath` the
class path has two elements, and the virtual machine receives none of them.
-/

namespace JPype

open Foundation Unicode

variable {os : OS} {c : StartRequest} {n : ℕ}

/-! ### The machine -/

/-- The name of the jar that matches a pattern. It is longer than `n`. -/
def jarName (n : ℕ) (pattern : Text) : Text :=
  quote pattern ++ (List.replicate n 'x' ++ ".jar".toList)

theorem jarName_injective (n : ℕ) : Function.Injective (jarName n) :=
  fun _ _ h ↦ quote_injective (List.append_cancel_right h)

theorem lt_length_jarName (n : ℕ) (pattern : Text) : n < (jarName n pattern).length := by
  have hjar : ".jar".toList.length = 4 := rfl
  rw [jarName, List.length_append, List.length_append, List.length_replicate, hjar]
  omega

theorem not_isWild_jarName (n : ℕ) (pattern : Text) : ¬IsWild (jarName n pattern) := by
  rw [IsWild, jarName, ← List.append_assoc, List.getLast?_append]
  exact fun h ↦ absurd (show some 'r' = some '*' from h) (by decide)

theorem mem_jarName {x : Char} {pattern : Text} (h : x ∈ jarName n pattern) :
    x.toNat < 0x3A ∨ 0x41 ≤ x.toNat ∧ x.toNat < 0x80 := by
  obtain h | h := List.mem_append.1 h
  · exact toNat_of_mem_quote h
  · obtain h | h := List.mem_append.1 h
    · rw [List.eq_of_mem_replicate h]
      decide
    · have hjar : (".jar".toList.all fun x ↦
          decide (x.toNat < 0x3A ∨ 0x41 ≤ x.toNat ∧ x.toNat < 0x80)) = true := by
        decide
      exact of_decide_eq_true (List.all_eq_true.1 hjar x h)

theorem isAscii_jarName (n : ℕ) (pattern : Text) : IsAscii (jarName n pattern) := by
  intro x hx
  have := mem_jarName hx
  omega

theorem notMem_jarName (os : OS) (n : ℕ) (pattern : Text) : os.pathsep ∉ jarName n pattern := by
  intro h
  have hsep := mem_jarName h
  revert hsep
  cases os <;> decide

/-- Each pattern is matched by one jar, unless it holds a path separator. -/
def Host.probe (n : ℕ) {lib : Text} (hlib : lib ≠ [] ∧ os.pathsep ∉ lib) : Host os where
  glob pattern := if os.pathsep ∈ pattern then [] else [jarName n pattern]
  defaultJVMPath := []
  supportLib := lib
  tempLib := []
  glob_nameable pattern jar hjar := by
    split at hjar
    · exact absurd hjar List.not_mem_nil
    · rw [List.mem_singleton.1 hjar]
      exact ⟨List.ne_nil_of_length_pos (by have := lt_length_jarName n pattern; omega),
        notMem_jarName os n pattern⟩
  supportLib_nameable := hlib
  tempLib_isAscii := by decide

/-- What becomes of an element there. -/
def probeName (n : ℕ) (element : Text) : Text :=
  if IsWild element then jarName n (element ++ ".jar".toList) else element

theorem not_isWild_probeName (n : ℕ) (element : Text) : ¬IsWild (probeName n element) := by
  rw [probeName]
  split_ifs with hw
  · exact not_isWild_jarName _ _
  · exact hw

/-- Elements that are not longer than `n` can be told apart. -/
theorem probeName_inj {element element' : Text} (hle : element.length ≤ n)
    (hle' : element'.length ≤ n) (h : probeName n element = probeName n element') :
    element = element' := by
  have hlt := lt_length_jarName n (element ++ ".jar".toList)
  have hlt' := lt_length_jarName n (element' ++ ".jar".toList)
  rw [probeName, probeName] at h
  split_ifs at h with hw hw' hw'
  · exact List.append_cancel_right (jarName_injective n h)
  · rw [h] at hlt
    omega
  · rw [← h] at hlt'
    omega
  · exact h

theorem eq_of_map_probeName {elements elements' : List Text}
    (hle : ∀ element ∈ elements, element.length ≤ n)
    (hle' : ∀ element ∈ elements', element.length ≤ n)
    (h : elements.map (probeName n) = elements'.map (probeName n)) : elements = elements' := by
  induction elements generalizing elements' with
  | nil => exact (List.map_eq_nil_iff.1 h.symm).symm
  | cons element elements ih =>
    cases elements' with
    | nil => exact absurd h (by simp)
    | cons element' elements' =>
      rw [List.map_cons, List.map_cons] at h
      obtain ⟨hhead, htail⟩ := List.cons.inj h
      rw [List.forall_mem_cons] at hle hle'
      rw [probeName_inj hle.1 hle'.1 hhead, ih hle.2 hle'.2 htail]

section

variable {lib : Text} (hlib : lib ≠ [] ∧ os.pathsep ∉ lib)

theorem glob_probe {element : Text} (hsep : os.pathsep ∉ element) :
    (Host.probe n hlib).glob (element ++ ".jar".toList) =
      [jarName n (element ++ ".jar".toList)] := by
  have hpattern : os.pathsep ∉ element ++ ".jar".toList := by
    rw [List.mem_append, not_or]
    refine ⟨hsep, ?_⟩
    cases os <;> decide
  exact if_neg hpattern

theorem glob_probe_of_mem {text : Text} (hsep : os.pathsep ∈ text) :
    (Host.probe n hlib).glob (text ++ ".jar".toList) = [] :=
  if_pos (List.mem_append_left _ hsep)

theorem expand_probe {element : Text} (hsep : os.pathsep ∉ element) :
    expand (Host.probe n hlib).glob element = [probeName n element] := by
  rw [expand, probeName, glob_probe hlib hsep]
  split_ifs <;> rfl

theorem flatMap_expand_probe {elements : List Text}
    (h : ∀ element ∈ elements, os.pathsep ∉ element) :
    elements.flatMap (expand (Host.probe n hlib).glob) = elements.map (probeName n) := by
  rw [List.flatMap_congr fun element he ↦ expand_probe hlib (h element he), List.map_eq_flatMap]

theorem specified_probe :
    specified (Host.probe n hlib) c = (c.elements os).map (probeName n) ++ [lib] := by
  rw [specified, flatMap_expand_probe hlib]
  · rfl
  · intro element he
    obtain ⟨text, -, he⟩ := List.mem_flatMap.1 he
    exact notMem_of_mem_splitOn (mem_fields.1 he).1

theorem isAscii_joined_probe (ha : IsAscii lib) :
    IsAscii (c.joined (Host.probe n hlib)) ↔ ¬NonAscii (c.read os) := by
  rw [StartRequest.isAscii_joined]
  refine ⟨fun h ↦ h.1, fun h ↦ ⟨h, ha, fun wild _ _ jar hjar ↦ ?_⟩⟩
  change jar ∈ if os.pathsep ∈ wild ++ ".jar".toList then [] else _ at hjar
  split_ifs at hjar
  · exact absurd hjar List.not_mem_nil
  · rw [List.mem_singleton.1 hjar]
    exact isAscii_jarName _ _

end

/-! ### The argument that is taken -/

namespace StartRequest

theorem not_isClassPath_of_value {a : JvmArg} (hvalue : (a.value classPathVar).isSome)
    (hoption : ¬(a.optionValue classPathVar).isSome) : ¬a.IsClassPath := by
  intro h
  cases a with
  | pyNone => exact h
  | object => exact h
  | str v =>
    obtain ⟨value, rfl⟩ := h
    obtain rfl | hne := eq_or_ne value []
    · -- an option without a value
      revert hvalue
      decide
    · have hsome : (JvmArg.str ("-Djava.class.path=".toList ++ value)).optionValue classPathVar =
          some value := JvmArg.optionValue_eq_some.2 ⟨hne, rfl⟩
      exact hoption (by rw [hsome]; rfl)

/-- The other arguments are not complete without an argument that is not an option. -/
theorem takesOption_of_otherArgs {extra : List JvmArg}
    (hextra : ∀ a ∈ otherArgs extra, a.value classPathVar = none)
    (h : otherArgs c.vmArgs <+: otherArgs (c.remaining ++ extra)) : c.TakesOption := by
  intro a ha
  by_contra hoption
  obtain ⟨-, hnone⟩ | ⟨a', before, after, hfind, heq, herase⟩ := exists_eraseP c.vmArgs
    fun a ↦ (a.value classPathVar).isSome
  · exact absurd (hnone.symm.trans ha) (Option.some_ne_none _).symm
  obtain rfl : a' = a := Option.some.inj (hfind.symm.trans ha)
  have hvalue : (a'.value classPathVar).isSome := by simpa using List.find?_some hfind
  have hother : otherArgs (a' :: after) = a' :: otherArgs after :=
    List.filter_cons_of_pos (by simpa using not_isClassPath_of_value hvalue hoption)
  have hzero : (otherArgs extra).count a' = 0 := by
    rw [List.count_eq_zero]
    intro hmem
    rw [hextra a' hmem] at hvalue
    exact absurd hvalue (by simp)
  have hcount := h.sublist.count_le a'
  rw [remaining, herase, heq, otherArgs_append, otherArgs_append, otherArgs_append, hother,
    List.count_append, List.count_append, List.count_append, List.count_cons_self, hzero] at hcount
  omega

/-- What is quoted has no `=`, so the only one comes after another name. -/
theorem value_quoted (cp : Text) :
    (JvmArg.str ("-Djpype.class.path=".toList ++ quote cp)).value classPathVar = none := by
  rw [Option.eq_none_iff_forall_ne_some]
  intro value hvalue
  obtain ⟨-, before, heq⟩ := JvmArg.eq_of_value hvalue
  have hquote : '=' ∉ quote cp := by
    intro hmem
    have hchar := toNat_of_mem_quote hmem
    revert hchar
    decide
  have htext : "-Djpype.class.path".toList ++ '=' :: quote cp =
      (before ++ classPathVar) ++ '=' :: value := by
    simpa [List.append_assoc] using JvmArg.str.inj heq
  have hcount := congrArg (List.count '=') htext
  have hname : "-Djpype.class.path".toList.count '=' = 0 := by decide
  rw [List.count_append, List.count_append, List.count_cons_self, List.count_cons_self, hname,
    List.count_eq_zero.2 hquote] at hcount
  have hbefore : '=' ∉ before ++ classPathVar := List.count_eq_zero.1 (by omega)
  have hsplit := congrArg (List.splitOn '=') htext
  rw [List.splitOn_append_cons_self_of_not_mem (List.count_eq_zero.1 hname),
    List.splitOn_append_cons_self_of_not_mem hbefore] at hsplit
  have hsuffix : classPathVar <:+ "-Djpype.class.path".toList :=
    ⟨before, (List.cons.inj hsplit).1.symm⟩
  revert hsuffix
  decide

/-- None of the arguments that are added would be taken. -/
theorem value_of_mem_quoted {cp lib : Text} : ∀ a ∈ otherArgs
    [.str "-Djava.system.class.loader=org.jpype.JPypeClassLoader".toList,
      .str ("-Djava.class.path=".toList ++ lib), .str ("-Djpype.class.path=".toList ++ quote cp),
      .str "-Xshare:off".toList], a.value classPathVar = none := by
  intro a ha
  obtain ⟨hmem, hother⟩ := List.mem_filter.1 ha
  simp only [List.mem_cons, List.not_mem_nil, or_false] at hmem
  obtain rfl | rfl | rfl | rfl := hmem
  · decide
  · have hclassPath : (JvmArg.str ("-Djava.class.path=".toList ++ lib)).IsClassPath :=
      List.prefix_append _ _
    exact absurd hclassPath (of_decide_eq_true hother)
  · exact value_quoted cp
  · decide

end StartRequest

/-! ### Counting elements -/

/-- How many elements a text makes that do not end in `*`. -/
def settled (texts : List Text) : ℕ :=
  texts.countP fun text ↦ ¬IsWild text

theorem settled_map_probeName (elements : List Text) :
    settled (elements.map (probeName n)) = elements.length := by
  rw [settled, List.countP_map, List.countP_eq_length]
  intro element _
  simpa using not_isWild_probeName n element

variable {lib : Text} (hlib : lib ≠ [] ∧ os.pathsep ∉ lib)

theorem PlainText.settled_expand {text : Text} (h : PlainText os text) :
    settled ((expand (Host.probe n hlib).glob text).flatMap (fields os.pathsep)) =
      (fields os.pathsep text).length := by
  rw [h.flatMap_fields, flatMap_expand_probe hlib, settled_map_probeName]
  exact fun element he ↦ notMem_of_mem_splitOn (mem_fields.1 he).1

/-- A text that is not plain loses an element, or keeps one that ends in `*`. -/
theorem settled_expand_lt {text : Text} (h : ¬PlainText os text) :
    settled ((expand (Host.probe n hlib).glob text).flatMap (fields os.pathsep)) <
      (fields os.pathsep text).length := by
  simp only [PlainText, not_forall] at h
  obtain ⟨element, he, hew, hne⟩ := h
  by_cases hw : IsWild text
  · have hsep : os.pathsep ∈ text := by
      by_contra hsep
      rw [fields_of_notMem hsep hw.ne_nil, List.mem_singleton] at he
      exact hne he
    rw [expand, if_pos hw, glob_probe_of_mem hlib hsep]
    exact List.length_pos_of_mem he
  · rw [expand_of_not_isWild hw, List.flatMap_singleton, settled]
    refine lt_of_le_of_ne List.countP_le_length fun heq ↦ ?_
    have hall := List.countP_eq_length.1 heq element he
    exact of_decide_eq_true hall hew

/-- If no element is lost, all texts are plain. -/
theorem plain_of_flatMap_eq {texts : List Text}
    (h : texts.flatMap (fun text ↦
      (expand (Host.probe n hlib).glob text).flatMap (fields os.pathsep)) =
        (texts.flatMap (fields os.pathsep)).map (probeName n)) :
    ∀ text ∈ texts, PlainText os text := by
  have hcount := congrArg settled h
  rw [settled_map_probeName, settled, List.countP_flatMap, List.length_flatMap] at hcount
  by_contra hplain
  simp only [not_forall] at hplain
  obtain ⟨text, htext, hplain⟩ := hplain
  refine hcount.not_lt (List.sum_lt_sum _ _ (fun text _ ↦ ?_)
    ⟨text, htext, settled_expand_lt hlib hplain⟩)
  by_cases hp : PlainText os text
  · exact (hp.settled_expand hlib).le
  · exact (settled_expand_lt hlib hp).le

/-! ### What has to be right -/

theorem RealConflict.classPathTwice {host : Host os} {e : PyError} (h : RealConflict host c e)
    (he : e = .typeError "classpath specified twice") : c.ClassPathTwice := by
  cases h with
  | classpath htwice => exact htwice
  | _ => exact absurd he (by decide)

theorem RealConflict.loader_of_eq {host : Host os} {e : PyError} (h : RealConflict host c e)
    (he : e = .valueError
      "system classloader cannot be specified with non ascii characters in the classpath") :
    c.LoaderGiven ∧ ∃ element ∈ specified host c, ¬IsAscii element := by
  cases h with
  | loader hgiven helement ha => exact ⟨hgiven, _, helement, ha⟩
  | _ => exact absurd he (by decide)

/-- The support library of a machine where it can be named in ASCII. -/
def plainLib : Text := "a.jar".toList

theorem plainLib_nameable (os : OS) : plainLib ≠ [] ∧ os.pathsep ∉ plainLib := by
  cases os <;> decide

/-- Another one. -/
def otherLib : Text := "b.jar".toList

theorem otherLib_nameable (os : OS) : otherLib ≠ [] ∧ os.pathsep ∉ otherLib := by
  cases os <;> decide

/-- One that is not ASCII. -/
def foreignLib : Text := "é.jar".toList

theorem foreignLib_nameable (os : OS) : foreignLib ≠ [] ∧ os.pathsep ∉ foreignLib := by
  cases os <;> decide

namespace StartRequest

/-- A length that no element exceeds. -/
def longest (os : OS) (c : StartRequest) : ℕ :=
  ((c.read os).flatMap (fields os.pathsep) ++ c.elements os).flatten.length

/-- What is delivered on the machines that tell class paths apart. -/
structure Probed (os : OS) (c : StartRequest) : Prop where
  accepted : c.Accepted
  delivers : ∀ (n : ℕ) {lib : Text} (hlib : lib ≠ [] ∧ os.pathsep ∉ lib),
    DeliversClassPath (Host.probe n hlib) c
  conflict : ¬c.LoaderConflict os

namespace Probed

variable (h : c.Probed os)

include h

/-- A class loader that is read is given: somewhere the path of the support library is not ASCII. -/
theorem loader (hl : c.LoaderRead) : c.LoaderGiven := by
  have hascii : ¬IsAscii (c.joined (Host.probe 0 (foreignLib_nameable os))) := by
    rw [isAscii_joined]
    rintro ⟨-, hlib, -⟩
    exact absurd (show IsAscii foreignLib from hlib) (by decide)
  have hdelivers := h.delivers 0 (foreignLib_nameable os)
  rw [DeliversClassPath, h.accepted.startJVM_refused hascii hl] at hdelivers
  exact (hdelivers.loader_of_eq rfl).1

/-- Only a class path that may be ASCII goes with a class loader. -/
theorem not_nonAscii (hl : c.LoaderRead) : ¬NonAscii (c.read os) := by
  intro hread
  have hascii : ¬IsAscii (c.joined (Host.probe 0 (plainLib_nameable os))) :=
    fun ha ↦ (isAscii_joined.1 ha).1 hread
  have hdelivers := h.delivers 0 (plainLib_nameable os)
  rw [DeliversClassPath, h.accepted.startJVM_refused hascii hl] at hdelivers
  obtain ⟨hgiven, element, helement, ha⟩ := hdelivers.loader_of_eq rfl
  refine h.conflict ⟨hl, hgiven, hread, ?_⟩
  rw [specified_probe, List.mem_append, List.mem_singleton] at helement
  obtain helement | rfl := helement
  · obtain ⟨element', helement', rfl⟩ := List.mem_map.1 helement
    rw [probeName] at ha
    split_ifs at ha with hw
    · exact absurd (isAscii_jarName _ _) ha
    · exact ⟨element', helement', hw, ha⟩
  · exact absurd (by decide) ha

/-- A class path that may be ASCII is passed directly. -/
theorem of_direct (n : ℕ) {lib : Text} (hlib : lib ≠ [] ∧ os.pathsep ∉ lib) (ha : IsAscii lib)
    (hread : ¬NonAscii (c.read os)) :
    c.TakesOption ∧ effectiveClassPath os (c.remaining ++
      [.str ("-Djava.class.path=".toList ++ c.joined (Host.probe n hlib))]) =
        some (specified (Host.probe n hlib) c) := by
  obtain ⟨path, hstart⟩ := h.accepted.startJVM_direct ((isAscii_joined_probe hlib ha).2 hread)
  have hdelivers := h.delivers n hlib
  rw [DeliversClassPath, hstart] at hdelivers
  obtain ⟨-, heffective, hothers⟩ := hdelivers
  refine ⟨takesOption_of_otherArgs (fun a hmem ↦ ?_) hothers, heffective⟩
  obtain ⟨hmem, hother⟩ := List.mem_filter.1 hmem
  obtain rfl := List.mem_singleton.1 hmem
  have hclassPath : (JvmArg.str
      ("-Djava.class.path=".toList ++ c.joined (Host.probe n hlib))).IsClassPath :=
    List.prefix_append _ _
  exact absurd hclassPath (of_decide_eq_true hother)

/-- A class path that cannot be ASCII is quoted. -/
theorem of_quoted (n : ℕ) {lib : Text} (hlib : lib ≠ [] ∧ os.pathsep ∉ lib)
    (hread : NonAscii (c.read os)) :
    c.TakesOption ∧
      fields os.pathsep (c.joined (Host.probe n hlib)) = specified (Host.probe n hlib) c := by
  obtain ⟨path, lib', hstart⟩ := h.accepted.startJVM_quoted
    (fun ha ↦ (isAscii_joined.1 ha).1 hread) (fun hl ↦ h.not_nonAscii hl hread)
  have hdelivers := h.delivers n hlib
  rw [DeliversClassPath, hstart] at hdelivers
  obtain ⟨-, heffective, hothers⟩ := hdelivers
  rw [effectiveClassPath_quoted] at heffective
  exact ⟨takesOption_of_otherArgs value_of_mem_quoted hothers, Option.some.inj heffective⟩

theorem takesOption : c.TakesOption := by
  by_cases hread : NonAscii (c.read os)
  · exact (h.of_quoted 0 (plainLib_nameable os) hread).1
  · exact (h.of_direct 0 (plainLib_nameable os) (by decide) hread).1

/-- No argument takes the place of what is passed directly: it would hide the support library. -/
theorem property_eq_none (hread : ¬NonAscii (c.read os)) :
    property "jpype.class.path".toList c.remaining = none := by
  rw [Option.eq_none_iff_forall_ne_some]
  intro cp hcp
  have hinitial : ∀ {lib : Text} (hlib : lib ≠ [] ∧ os.pathsep ∉ lib), IsAscii lib →
      initial os some cp = some ((c.elements os).map (probeName 0) ++ [lib]) := by
    intro lib hlib ha
    have heffective := (h.of_direct 0 hlib ha hread).2
    rw [specified_probe, effectiveClassPath, property_append_of_none _
      (by simp only [List.forall_mem_singleton]; rfl), hcp] at heffective
    exact heffective
  have hlibs := (hinitial (plainLib_nameable os) (by decide)).symm.trans
    (hinitial (otherLib_nameable os) (by decide))
  have hlast := (List.append_inj' (Option.some.inj hlibs) rfl).2
  revert hlast
  decide

theorem splitOn_joined (n : ℕ) (hread : ¬NonAscii (c.read os)) :
    (c.joined (Host.probe n (plainLib_nameable os))).splitOn os.pathsep =
      specified (Host.probe n (plainLib_nameable os)) c := by
  have heffective := (h.of_direct n (plainLib_nameable os) (by decide) hread).2
  rw [effectiveClassPath_direct os _ (h.property_eq_none hread)] at heffective
  exact Option.some.inj heffective

omit h in
theorem nil_notMem_specified {lib : Text} (hlib : lib ≠ [] ∧ os.pathsep ∉ lib) :
    [] ∉ specified (Host.probe n hlib) c := by
  rw [specified_probe, List.mem_append, List.mem_singleton]
  rintro (hmem | hmem)
  · obtain ⟨element, he, hname⟩ := List.mem_map.1 hmem
    obtain ⟨text, -, he⟩ := List.mem_flatMap.1 he
    rw [probeName] at hname
    split_ifs at hname
    · have hlt := lt_length_jarName n (element ++ ".jar".toList)
      rw [hname] at hlt
      exact absurd hlt (Nat.not_lt_zero _)
    · exact (mem_fields.1 he).2 hname
  · exact hlib.1 hmem.symm

theorem fields_joined (n : ℕ) :
    fields os.pathsep (c.joined (Host.probe n (plainLib_nameable os))) =
      specified (Host.probe n (plainLib_nameable os)) c := by
  by_cases hread : NonAscii (c.read os)
  · exact (h.of_quoted n (plainLib_nameable os) hread).2
  · rw [fields_eq_splitOn, h.splitOn_joined n hread]
    rw [h.splitOn_joined n hread]
    exact nil_notMem_specified _

theorem flatMap_eq (n : ℕ) :
    (c.read os).flatMap (fun text ↦
      (expand (Host.probe n (plainLib_nameable os)).glob text).flatMap (fields os.pathsep)) =
        (c.elements os).map (probeName n) := by
  have hjoined := h.fields_joined n
  rw [StartRequest.fields_joined, specified_probe] at hjoined
  exact List.append_cancel_right hjoined

theorem plain : ∀ text ∈ c.read os, PlainText os text := by
  have hflatMap := h.flatMap_eq 0
  cases hhead : (c.optionValues classPathVar).head? with
  | none =>
    have helements : c.elements os = (c.read os).flatMap (fields os.pathsep) := by
      rw [elements, read, h.takesOption.found_eq, hhead, List.head?_eq_none_iff.1 hhead,
        List.getLast?_nil]
    rw [helements] at hflatMap
    exact plain_of_flatMap_eq _ hflatMap
  | some first =>
    -- the parts of an option have no separators
    have hread : c.read os = first.splitOn os.pathsep := by
      rw [read, h.takesOption.found_eq, hhead]
      rfl
    intro text htext element helement _
    rw [hread] at htext
    have hsep := notMem_of_mem_splitOn htext
    rw [mem_fields, List.splitOn_eq_singleton hsep, List.mem_singleton] at helement
    exact helement.1

theorem flatMap_fields_read : (c.read os).flatMap (fields os.pathsep) = c.elements os := by
  have hle : ∀ element ∈ (c.read os).flatMap (fields os.pathsep) ++ c.elements os,
      element.length ≤ c.longest os :=
    fun element he ↦ (List.sublist_flatten_of_mem he).length_le
  rw [List.forall_mem_append] at hle
  refine eq_of_map_probeName hle.1 hle.2 ?_
  rw [← h.flatMap_eq, List.flatMap_congr fun text htext ↦ (h.plain text htext).flatMap_fields _,
    ← List.flatMap_assoc, flatMap_expand_probe]
  intro element he
  obtain ⟨text, -, he⟩ := List.mem_flatMap.1 he
  exact notMem_of_mem_splitOn (mem_fields.1 he).1

/-- The first value for the class path is as good as the last. -/
theorem same : (c.optionValues classPathVar).head?.map (fields os.pathsep) =
    (c.optionValues classPathVar).getLast?.map (fields os.pathsep) := by
  have hread := h.flatMap_fields_read
  rw [read, h.takesOption.found_eq, elements] at hread
  cases hhead : (c.optionValues classPathVar).head? with
  | none => rw [List.head?_eq_none_iff.1 hhead, List.getLast?_nil]
  | some first =>
    obtain ⟨values, hvalues⟩ := List.head?_eq_some_iff.1 hhead
    rw [hhead, hvalues, List.getLast?_cons] at hread
    rw [hvalues, List.getLast?_cons, Option.map_some, Option.map_some]
    have hfields : (first.splitOn os.pathsep).flatMap (fields os.pathsep) =
        ((values.getLast?.getD first).splitOn os.pathsep).flatMap (fields os.pathsep) := hread
    rw [flatMap_fields_splitOn, flatMap_fields_splitOn] at hfields
    rw [hfields]

theorem sound : c.Sound os where
  option := h.takesOption
  loader := h.loader
  same := h.same
  plain := h.plain
  direct := by
    by_cases hread : NonAscii (c.read os)
    · exact .inl hread
    · refine .inr ⟨fun text htext hw ↦ ?_, ?_⟩
      · by_contra hempty
        rw [not_or, not_not] at hempty
        refine nil_notMem_specified (n := 0) (plainLib_nameable os) (c := c) ?_
        rw [← h.splitOn_joined 0 hread]
        exact nil_mem_splitOn_joined.2 ⟨text, htext, hw, hempty⟩
      · rw [← h.takesOption.property_remaining]
        exact h.property_eq_none hread

end Probed

/-- A call of `startJVM` raises for a conflict or gets the class path that it asks for, on every
machine, if and only if it is one of these: one with a conflict, or one that is sound. -/
theorem deliversClassPath_iff (os : OS) (c : StartRequest) :
    (∀ host : Host os, DeliversClassPath host c) ↔ c.Deliverable os := by
  refine ⟨fun h ↦ ?_, Deliverable.delivers⟩
  by_cases hpath : c.PathTwice
  · exact .inl hpath
  by_cases htwice : c.ClassPathTwice
  · exact .inr (.inl htwice)
  have hfound : ¬c.FoundTwice := by
    intro hfound
    have hdelivers := h (Host.probe 0 (plainLib_nameable os))
    rw [DeliversClassPath, startJVM_of_foundTwice _ hpath hfound] at hdelivers
    exact htwice (hdelivers.classPathTwice rfl)
  refine .inr (.inr ⟨hfound, ?_⟩)
  by_cases htyped : c.IllTyped
  · exact .inl htyped
  by_cases hconflict : c.LoaderConflict os
  · exact .inr (.inl hconflict)
  have hprobed : c.Probed os :=
    ⟨⟨hpath, hfound, htyped⟩, fun _ _ hlib ↦ h (Host.probe _ hlib), hconflict⟩
  exact .inr (.inr hprobed.sound)

end StartRequest

/-! ### A class path that is lost -/

/-- A machine with a jar in `lib`. -/
def oneJar : Host .posix where
  glob pattern := if pattern = "lib/*.jar".toList then ["lib/x.jar".toList] else []
  defaultJVMPath := "/usr/lib/libjvm.so".toList
  supportLib := "/site/org.jpype.jar".toList
  tempLib := "/tmp/tmp1".toList
  glob_nameable pattern jar hjar := by
    split at hjar
    · rw [List.mem_singleton.1 hjar]
      decide
    · exact absurd hjar List.not_mem_nil
  supportLib_nameable := by decide
  tempLib_isAscii := by decide

/-- `startJVM(classpath="a.jar:lib/*")` -/
def twoElements : StartRequest where
  jvmargs := []
  jvmpath := none
  classpath := some (.str "a.jar:lib/*".toList)
  getClassPath := []

/-- The text ends in `*`, so all of it is a pattern, and nothing matches. -/
theorem not_deliversClassPath : ¬DeliversClassPath oneJar twoElements := by
  have hstart : startJVM oneJar twoElements =
      .ok ⟨"/usr/lib/libjvm.so".toList, [.str "-Djava.class.path=/site/org.jpype.jar".toList]⟩ := by
    decide +kernel
  rw [DeliversClassPath, hstart]
  rintro ⟨-, heffective, -⟩
  revert heffective
  decide +kernel

/-- Text inside another argument is taken for the class path, and the argument is lost. -/
example : startJVM oneJar { twoElements with
    jvmargs := [.str "-Dnote=-Djava.class.path=b.jar".toList], classpath := none } =
    .ok ⟨"/usr/lib/libjvm.so".toList,
      [.str "-Djava.class.path=b.jar:/site/org.jpype.jar".toList]⟩ := by
  decide +kernel

end JPype
