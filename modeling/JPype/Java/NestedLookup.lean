import JPype.Foundation.Joining
import JPype.Foundation.Membership
import Mathlib.Data.List.DropRight

/-!
# Classes by dotted name

`TypeManager.lookupByName` finds a class by a name in which the nested classes are written with
dots, as the packages are. Where the name as a whole is not that of a class, it is cut after its
second component, its third and so on: if the front is the name of a class, then the other
components are appended with dollar signs, and the class of this name is returned.

All of this is done in one buffer. A class that is found but does not have the nested class leaves
the dollar signs in the buffer, so that only the first class on the way gets its chance; and the
first component is not tried on its own. The lookup does what it is for exactly in the cases of
`finds_iff`.
-/

namespace JPype.TypeManager

open scoped Foundation.Membership

/-- A name, of a class or of a component of it. -/
abbrev Name := List Char

/-- The classes that `Class.forName` finds, by their binary names. -/
structure Loaders where
  /-- With the `JPypeClassLoader`. -/
  jpype : Name → Bool
  /-- With the loader of the caller, which is the one that has loaded `TypeManager`. -/
  caller : Name → Bool
  /-- The `JPypeClassLoader` asks its parent first. -/
  jpype_of_caller : ∀ name, caller name = true → jpype name = true

/-- A class: a primitive type, the class of a name, or an array. -/
inductive JavaClass where
  | primitive (name : Name)
  | named (binaryName : Name)
  | array (component : JavaClass)
  deriving DecidableEq

/-- The class of arrays with so many dimensions. -/
def JavaClass.arrays (cls : JavaClass) : ℕ → JavaClass
  | 0 => cls
  | dims + 1 => .array (cls.arrays dims)

inductive LookupError where
  | illegalArgument
  | arrayIndexOutOfBounds
  deriving DecidableEq

/-- `Array.newInstance(cls, new int[dims]).getClass()` -/
def newInstance (cls : JavaClass) (dims : ℕ) : Except LookupError JavaClass :=
  if dims ≤ 255 then .ok (cls.arrays dims) else .error .illegalArgument

/-- The primitive types that are looked up by name. -/
def primitiveNames : List Name :=
  ["boolean".toList, "byte".toList, "char".toList, "short".toList, "long".toList, "int".toList,
    "float".toList, "double".toList]

/-- `name.split("\\.")`: without the empty parts at the end, unless there is nothing to split. -/
def split (name : Name) : List Name :=
  if '.' ∈ name then (name.splitOn '.').rdropWhile List.isEmpty else [name]

/-- The components as nested classes. -/
def nestedNames (parts : List Name) : Name :=
  parts.flatMap fun part ↦ '$' :: part

namespace Loaders

variable (L : Loaders)

/-- The loop over the components, with the buffer. A class that is found is looked up once more
with the other components; where this fails, these are left in the buffer. -/
def probe : Name → List Name → Option Name
  | _, [] => none
  | sb, part :: parts =>
    if L.caller (sb ++ '.' :: part) then
      if L.caller (sb ++ '.' :: part ++ nestedNames parts) then
        some (sb ++ '.' :: part ++ nestedNames parts)
      else probe (sb ++ '.' :: part ++ nestedNames parts) parts
    else probe (sb ++ '.' :: part) parts

/-- `lookupByName` for a name that does not end in `[]`. -/
def lookupClass (name : Name) : Except LookupError (Option JavaClass) :=
  if L.jpype name then .ok (some (.named name))
  else if '/' ∈ name ∧ L.jpype (name.map fun c ↦ if c = '/' then '.' else c) then
    .ok (some (.named (name.map fun c ↦ if c = '/' then '.' else c)))
  else if '.' ∉ name ∧ name ∈ primitiveNames then .ok (some (.primitive name))
  else
    match split name with
    | [] => .error .arrayIndexOutOfBounds
    | part :: parts => .ok ((L.probe part parts).map .named)

end Loaders

/-- The loop that counts the pairs of brackets at the end of a name. The name is reversed. -/
def stripBrackets : Name → ℕ × Name
  | ']' :: '[' :: name => ((stripBrackets name).1 + 1, (stripBrackets name).2)
  | name => (0, name)

/-- `lookupByName` -/
def Loaders.lookupByName (L : Loaders) (name : Name) : Except LookupError (Option JavaClass) :=
  match stripBrackets name.reverse with
  | (0, _) => L.lookupClass name
  | (dims + 1, stripped) =>
    match L.lookupClass stripped.reverse with
    | .error e => .error e
    | .ok none => .ok none
    | .ok (some cls) => some <$> newInstance cls (dims + 1)

/-! ### Dotted names -/

/-- A component of a name: an identifier. -/
structure IsComponent (part : Name) : Prop where
  ne_nil : part ≠ []
  dot : '.' ∉ part
  slash : '/' ∉ part
  bracket : ']' ∉ part
  primitive : part ∉ primitiveNames

/-- A name with dots between packages, classes and nested classes. -/
structure DottedName where
  parts : List Name
  ne_nil : parts ≠ []
  isComponent : ∀ part ∈ parts, IsComponent part

/-- Components with dots between them. -/
def dotted (parts : List Name) : Name :=
  ['.'].intercalate parts

/-- The name as it is written, with pairs of brackets at the end. -/
def DottedName.written (n : DottedName) (dims : ℕ) : Name :=
  dotted n.parts ++ (List.replicate dims ['[', ']']).flatten

/-- The binary name of a class and its nested classes. -/
def binaryName (outer nested : List Name) : Name :=
  dotted outer ++ nestedNames nested

namespace Loaders

variable (L : Loaders)

/-- The name splits into that of an existing class and nested names, and the class of the binary
name exists. -/
def Names (n : DottedName) (name : Name) : Prop :=
  ∃ outer nested, n.parts = outer ++ nested ∧ outer ≠ [] ∧ L.jpype (dotted outer) ∧
    L.jpype (binaryName outer nested) ∧ name = binaryName outer nested

/-- The class of some split is found, and `null` is returned if there is none. -/
def Finds (n : DottedName) (dims : ℕ) : Prop :=
  (∃ name, L.Names n name ∧
    L.lookupByName (n.written dims) = .ok (some ((JavaClass.named name).arrays dims))) ∨
  (¬∃ name, L.Names n name) ∧ L.lookupByName (n.written dims) = .ok none

/-- The shortest front of at least two components, but not all, that is the name of a class which
the loader of the caller finds. -/
structure FirstClass (n : DottedName) (outer nested : List Name) : Prop where
  split : n.parts = outer ++ nested
  two_le : 2 ≤ outer.length
  nested_ne_nil : nested ≠ []
  caller : L.caller (dotted outer)
  first : ∀ before after, n.parts = before ++ after → 2 ≤ before.length →
    before.length < outer.length → L.caller (dotted before) = false

/-- No class is found with the names that are built on the buffer `sb`. -/
def NoStray : Name → List Name → Prop
  | _, [] => True
  | sb, part :: parts =>
    if L.caller (sb ++ '.' :: part) then
      L.caller (sb ++ '.' :: part ++ nestedNames parts) = false ∧
        NoStray (sb ++ '.' :: part ++ nestedNames parts) parts
    else NoStray (sb ++ '.' :: part) parts

end Loaders

/-! ### Reading a name -/

theorem dotted_append_singleton {outer : List Name} (h : outer ≠ []) (part : Name) :
    dotted (outer ++ [part]) = dotted outer ++ '.' :: part := by
  induction outer with
  | nil => exact absurd rfl h
  | cons first outer ih =>
    cases outer with
    | nil => simp [dotted]
    | cons second outer =>
      have hrest := ih (List.cons_ne_nil _ _)
      rw [dotted, dotted, List.cons_append] at hrest
      rw [dotted, dotted, List.cons_append, List.cons_append, List.intercalate_cons_cons, hrest,
        List.intercalate_cons_cons, List.append_assoc, List.append_assoc, List.append_assoc]

@[simp]
theorem binaryName_nil (outer : List Name) : binaryName outer [] = dotted outer :=
  List.append_nil _

theorem notMem_dotted {n : DottedName} {c : Char} (hdot : c ≠ '.')
    (h : ∀ part ∈ n.parts, c ∉ part) : c ∉ dotted n.parts := by
  have hall : ∀ d ∈ dotted n.parts, d ≠ c :=
    (Foundation.forall_mem_intercalate (P := fun d ↦ d ≠ c) hdot.symm).mpr
      fun part hpart d hd heq ↦ h part hpart (heq ▸ hd)
  exact fun hc ↦ hall c hc rfl

/-- The components of a name are read back. -/
theorem split_dotted (n : DottedName) : split (dotted n.parts) = n.parts := by
  obtain ⟨parts, hne, hparts⟩ := n
  have hsingle : ∀ part ∈ parts, part.splitOn '.' = [part] := fun part hpart ↦
    List.splitOn_eq_singleton (hparts part hpart).dot
  have hsplit : (dotted parts).splitOn '.' = parts := by
    rw [dotted, Foundation.splitOn_intercalate_flatMap hne, List.flatMap_congr hsingle,
      List.flatMap_singleton']
  have hlast : parts.rdropWhile List.isEmpty = parts := by
    rw [List.rdropWhile_eq_self_iff]
    intro hne' hempty
    exact (hparts _ (List.getLast_mem hne')).ne_nil (List.isEmpty_iff.mp hempty)
  show split (dotted parts) = parts
  rw [split]
  split_ifs with hdot
  · rw [hsplit, hlast]
  · rw [← List.splitOn_eq_singleton hdot, hsplit]

theorem stripBrackets_of_notMem {name : Name} (h : ']' ∉ name) :
    stripBrackets name = (0, name) := by
  rw [stripBrackets]
  rintro rest rfl
  exact h List.mem_cons_self

theorem stripBrackets_append {name : Name} (h : ']' ∉ name) (dims : ℕ) :
    stripBrackets ((List.replicate dims [']', '[']).flatten ++ name) = (dims, name) := by
  induction dims with
  | zero => exact stripBrackets_of_notMem h
  | succ dims ih =>
    rw [List.replicate_succ, List.flatten_cons, List.append_assoc]
    show stripBrackets (']' :: '[' :: ((List.replicate dims [']', '[']).flatten ++ name)) = _
    rw [stripBrackets, ih]

theorem stripBrackets_written (n : DottedName) (dims : ℕ) :
    stripBrackets (n.written dims).reverse = (dims, (dotted n.parts).reverse) := by
  have hbracket : ']' ∉ (dotted n.parts).reverse := fun h ↦
    notMem_dotted (by decide) (fun part hpart ↦ (n.isComponent part hpart).bracket)
      (List.mem_reverse.mp h)
  rw [DottedName.written, List.reverse_append, List.reverse_flatten, List.map_replicate,
    List.reverse_replicate]
  exact stripBrackets_append hbracket dims

namespace Loaders

variable (L : Loaders)

/-- The brackets are taken off, and the dimensions put on the class that is found. -/
theorem lookupByName_written (n : DottedName) (dims : ℕ) :
    L.lookupByName (n.written dims) =
      match L.lookupClass (dotted n.parts) with
      | .error e => .error e
      | .ok none => .ok none
      | .ok (some cls) => some <$> newInstance cls dims := by
  rw [lookupByName, stripBrackets_written]
  rcases dims with - | dims
  · have hwritten : n.written 0 = dotted n.parts := List.append_nil _
    dsimp only
    rw [hwritten]
    rcases L.lookupClass (dotted n.parts) with e | - | cls <;> rfl
  · simp only [List.reverse_reverse]

/-- The whole name is tried first, then the loop begins with the first component. -/
theorem lookupClass_dotted {n : DottedName} {part : Name} {parts : List Name}
    (h : n.parts = part :: parts) :
    L.lookupClass (dotted n.parts) =
      if L.jpype (dotted n.parts) then .ok (some (.named (dotted n.parts)))
      else .ok ((L.probe part parts).map .named) := by
  have hslash : '/' ∉ dotted n.parts :=
    notMem_dotted (by decide) fun part hpart ↦ (n.isComponent part hpart).slash
  have hprimitive : ¬('.' ∉ dotted n.parts ∧ dotted n.parts ∈ primitiveNames) := by
    rintro ⟨hdot, hmem⟩
    have hone := split_dotted n
    rw [split, if_neg hdot] at hone
    have hpart := List.mem_singleton_self (dotted n.parts)
    rw [hone] at hpart
    exact (n.isComponent _ hpart).primitive hmem
  have hjni : ¬('/' ∈ dotted n.parts ∧
      L.jpype ((dotted n.parts).map fun c ↦ if c = '/' then '.' else c) = true) :=
    fun hs ↦ hslash hs.1
  rw [lookupClass, if_neg hjni, if_neg hprimitive, split_dotted]
  simp only [h]

/-! ### The loop -/

/-- Until a class is found the buffer is a front of the name; at the first class that is found the
other components are nested names. -/
theorem probe_dotted {outer : List Name} (houter : outer ≠ []) (parts : List Name) :
    (L.probe (dotted outer) parts = none ∧ ∀ before after, parts = before ++ after → before ≠ [] →
      L.caller (dotted (outer ++ before)) = false) ∨
    ∃ front nested, parts = front ++ nested ∧ front ≠ [] ∧ L.caller (dotted (outer ++ front)) ∧
      (∀ before after, parts = before ++ after → before ≠ [] → before.length < front.length →
        L.caller (dotted (outer ++ before)) = false) ∧
      L.probe (dotted outer) parts =
        if L.caller (binaryName (outer ++ front) nested) then
          some (binaryName (outer ++ front) nested)
        else L.probe (binaryName (outer ++ front) nested) nested := by
  induction parts generalizing outer with
  | nil =>
    refine Or.inl ⟨rfl, fun before after h hne ↦ ?_⟩
    exact absurd (List.append_eq_nil_iff.mp h.symm).1 hne
  | cons part parts ih =>
    have hstep := dotted_append_singleton houter part
    rw [probe, ← hstep]
    by_cases hcaller : L.caller (dotted (outer ++ [part])) = true
    · refine Or.inr ⟨[part], parts, rfl, List.cons_ne_nil _ _, hcaller, ?_, by
        rw [if_pos hcaller]; rfl⟩
      intro before after _ hne hlt
      exact absurd (List.length_eq_zero_iff.mp (Nat.lt_one_iff.mp hlt)) hne
    · have hnone : L.caller (dotted (outer ++ [part])) = false := by simpa using hcaller
      -- A longer front of the name begins with this component.
      have hextend : ∀ before after, part :: parts = before ++ after → before ≠ [] →
          before = [part] ∨ ∃ before', before' ≠ [] ∧ parts = before' ++ after ∧
            before = part :: before' := by
        intro before after h hne
        obtain ⟨first, before', rfl⟩ := List.exists_cons_of_ne_nil hne
        obtain ⟨rfl, hrest⟩ := List.cons_eq_cons.mp h
        by_cases hnil : before' = []
        · exact Or.inl (by rw [hnil])
        · exact Or.inr ⟨before', hnil, hrest, rfl⟩
      rw [if_neg hcaller]
      rcases ih (List.append_ne_nil_of_left_ne_nil houter [part]) with
        ⟨hprobe, hall⟩ | ⟨front, nested, hparts, hfront, hfound, hfirst, hprobe⟩
      · refine Or.inl ⟨hprobe, fun before after h hne ↦ ?_⟩
        rcases hextend before after h hne with rfl | ⟨before', hne', hrest, rfl⟩
        · exact hnone
        · have hbefore := hall before' after hrest hne'
          rwa [List.append_assoc] at hbefore
      · rw [List.append_assoc, List.singleton_append] at hfound hprobe
        refine Or.inr ⟨part :: front, nested, by rw [hparts]; rfl, List.cons_ne_nil _ _, hfound,
          fun before after h hne hlt ↦ ?_, hprobe⟩
        rcases hextend before after h hne with rfl | ⟨before', hne', hrest, rfl⟩
        · exact hnone
        · have hbefore := hfirst before' after hrest hne' (Nat.lt_of_succ_lt_succ hlt)
          rwa [List.append_assoc] at hbefore

/-- A class that is found is named after the buffer. -/
theorem prefix_of_probe {sb : Name} {parts : List Name} {name : Name}
    (h : L.probe sb parts = some name) : sb ++ ['.'] <+: name := by
  induction parts generalizing sb with
  | nil => cases h
  | cons part parts ih =>
    rw [probe] at h
    have hdot : sb ++ ['.'] <+: sb ++ '.' :: part := ⟨part, by simp⟩
    split_ifs at h with hclass hnested
    · obtain rfl : sb ++ '.' :: part ++ nestedNames parts = name := by injection h
      exact hdot.trans (List.prefix_append _ _)
    · exact hdot.trans (((List.prefix_append _ _).trans (List.prefix_append _ _)).trans (ih h))
    · exact hdot.trans ((List.prefix_append _ _).trans (ih h))

theorem probe_eq_none_iff (sb : Name) (parts : List Name) :
    L.probe sb parts = none ↔ L.NoStray sb parts := by
  induction parts generalizing sb with
  | nil => exact ⟨fun _ ↦ trivial, fun _ ↦ rfl⟩
  | cons part parts ih =>
    rw [probe, NoStray]
    split_ifs with hclass hnested
    · refine ⟨(by rintro ⟨⟩), fun h ↦ ?_⟩
      rw [h.1] at hnested
      cases hnested
    · exact (ih _).trans (and_iff_right (Bool.eq_false_iff.mpr hnested)).symm
    · exact ih _

end Loaders

/-! ### Names that differ -/

/-- A binary name is as long as the dotted name. -/
theorem length_binaryName {outer : List Name} (h : outer ≠ []) (nested : List Name) :
    (binaryName outer nested).length = (dotted (outer ++ nested)).length := by
  induction nested generalizing outer with
  | nil => rw [binaryName_nil, List.append_nil]
  | cons part nested ih =>
    have hlen : (binaryName outer (part :: nested)).length =
        (binaryName (outer ++ [part]) nested).length := by
      simp [binaryName, dotted_append_singleton h, nestedNames]
    rw [hlen, ih (List.append_ne_nil_of_left_ne_nil h [part]), ← List.append_cons]

/-- What is found with dollar signs in the buffer is no class that the name stands for. -/
theorem ne_of_probe {L : Loaders} {outer nested : List Name} (houter : outer ≠ [])
    {outer' nested' : List Name} (houter' : outer' ≠ [])
    (hsame : outer ++ nested = outer' ++ nested') {parts : List Name} {name : Name}
    (h : L.probe (binaryName outer nested) parts = some name) :
    name ≠ binaryName outer' nested' := by
  rintro rfl
  have hlen := (L.prefix_of_probe h).length_le
  rw [List.length_append, length_binaryName houter, length_binaryName houter', hsame] at hlen
  exact absurd hlen (by simp)

theorem JavaClass.arrays_named_injective {name name' : Name} {dims : ℕ}
    (h : (JavaClass.named name).arrays dims = (JavaClass.named name').arrays dims) :
    name = name' := by
  induction dims with
  | zero => injection h
  | succ dims ih => exact ih (by injection h)

namespace Loaders

variable (L : Loaders) (n : DottedName) (dims : ℕ)

theorem finds_of_some {name : Name}
    (h : L.lookupClass (dotted n.parts) = .ok (some (.named name))) :
    L.Finds n dims ↔ L.Names n name ∧ dims ≤ 255 := by
  have hlookup : L.lookupByName (n.written dims) = some <$> newInstance (.named name) dims := by
    rw [lookupByName_written, h]
  rw [Finds, hlookup, newInstance]
  split_ifs with hdims
  · refine ⟨?_, fun ⟨hname, _⟩ ↦ Or.inl ⟨name, hname, rfl⟩⟩
    rintro (⟨name', hname', heq⟩ | ⟨-, heq⟩)
    · injection heq with heq
      injection heq with heq
      exact ⟨JavaClass.arrays_named_injective heq ▸ hname', hdims⟩
    · injection heq with heq
      cases heq
  · refine ⟨?_, fun ⟨_, hle⟩ ↦ absurd hle hdims⟩
    rintro (⟨_, -, heq⟩ | ⟨-, heq⟩) <;> cases heq

theorem finds_of_none (h : L.lookupClass (dotted n.parts) = .ok none) :
    L.Finds n dims ↔ ¬∃ name, L.Names n name := by
  have hlookup : L.lookupByName (n.written dims) = .ok none := by
    rw [lookupByName_written, h]
  rw [Finds, hlookup]
  refine ⟨?_, fun hnone ↦ Or.inr ⟨hnone, rfl⟩⟩
  rintro (⟨_, -, heq⟩ | ⟨hnone, -⟩)
  · injection heq with heq
    cases heq
  · exact hnone

/-- There is one first class at most. -/
theorem FirstClass.unique {L : Loaders} {n : DottedName} {outer nested outer' nested' : List Name}
    (h : L.FirstClass n outer nested) (h' : L.FirstClass n outer' nested') :
    outer = outer' ∧ nested = nested' := by
  have hle : outer'.length ≤ outer.length := Nat.le_of_not_lt fun hlt ↦ by
    have hno := h'.first outer nested h.split h.two_le hlt
    rw [h.caller] at hno
    cases hno
  have hge : outer.length ≤ outer'.length := Nat.le_of_not_lt fun hlt ↦ by
    have hno := h.first outer' nested' h'.split h'.two_le hlt
    rw [h'.caller] at hno
    cases hno
  exact List.append_inj (h.split.symm.trans h'.split) (Nat.le_antisymm hge hle)

/-- What the loop finds, if the whole name is not that of a class: with a first class, what this
decides, and else nothing. -/
theorem lookupClass_cases (hwhole : L.jpype (dotted n.parts) = false) :
    (L.lookupClass (dotted n.parts) = .ok none ∧ ∀ outer nested, ¬L.FirstClass n outer nested) ∨
    ∃ outer nested, L.FirstClass n outer nested ∧
      L.lookupClass (dotted n.parts) =
        .ok ((if L.caller (binaryName outer nested) then some (binaryName outer nested)
          else L.probe (binaryName outer nested) nested).map .named) := by
  obtain ⟨part, parts, hparts⟩ := List.exists_cons_of_ne_nil n.ne_nil
  have hlookup := L.lookupClass_dotted hparts
  rw [hwhole, if_neg (by simp)] at hlookup
  -- A front of the name with two components or more begins with the first component.
  have hcons : ∀ before after, n.parts = before ++ after → 2 ≤ before.length →
      ∃ before', before = part :: before' ∧ before' ≠ [] ∧ parts = before' ++ after := by
    intro before after h hlen
    have hpos : 0 < before.length := Nat.lt_of_lt_of_le Nat.zero_lt_two hlen
    obtain ⟨first, before', rfl⟩ := List.exists_cons_of_ne_nil (List.ne_nil_of_length_pos hpos)
    obtain ⟨rfl, hrest⟩ := List.cons_eq_cons.mp (hparts.symm.trans h)
    refine ⟨before', rfl, ?_, hrest⟩
    rintro rfl
    exact absurd hlen (by simp)
  have hprobe := L.probe_dotted (List.cons_ne_nil part []) parts
  rw [show dotted [part] = part by simp [dotted]] at hprobe
  rcases hprobe with ⟨hprobe, hall⟩ | ⟨front, nested, hsplit, hfront, hcaller, hfirst, hprobe⟩
  · refine Or.inl ⟨by rw [hlookup, hprobe]; rfl, fun outer nested h ↦ ?_⟩
    obtain ⟨before, rfl, hne, hrest⟩ := hcons outer nested h.split h.two_le
    have hno := hall before nested hrest hne
    rw [List.singleton_append, h.caller] at hno
    cases hno
  · refine Or.inr ⟨part :: front, nested, ⟨by rw [hparts, hsplit]; rfl, ?_, ?_, hcaller, ?_⟩, ?_⟩
    · have hpos := List.length_pos_iff.mpr hfront
      rw [List.length_cons]
      omega
    · rintro rfl
      have hjpype := L.jpype_of_caller _ hcaller
      rw [List.singleton_append, ← List.append_nil front, ← hsplit, ← hparts, hwhole] at hjpype
      cases hjpype
    · intro before after h hlen hlt
      obtain ⟨before', rfl, hne, hrest⟩ := hcons before after h hlen
      exact hfirst before' after hrest hne (Nat.lt_of_succ_lt_succ hlt)
    · rw [hlookup, hprobe]
      rfl

/-- The lookup finds the class of a split, and nothing where there is none, exactly in these cases.
If the name stands for a class, it has no more than 255 dimensions, and either the name as a whole
is that of a class or the first class on the way has the nested class. If it does not, no class is
found with what the first class on the way has left in the buffer. -/
theorem finds_iff :
    L.Finds n dims ↔
      ((∃ name, L.Names n name) → dims ≤ 255 ∧ (L.jpype (dotted n.parts) ∨
        ∃ outer nested, L.FirstClass n outer nested ∧ L.caller (binaryName outer nested))) ∧
      ((¬∃ name, L.Names n name) → ∀ outer nested, L.FirstClass n outer nested →
        L.NoStray (binaryName outer nested) nested) := by
  by_cases hwhole : L.jpype (dotted n.parts) = true
  · -- The direct lookup.
    obtain ⟨part, parts, hparts⟩ := List.exists_cons_of_ne_nil n.ne_nil
    have hlookup := L.lookupClass_dotted hparts
    rw [if_pos hwhole] at hlookup
    have hnames : L.Names n (dotted n.parts) :=
      ⟨n.parts, [], (List.append_nil _).symm, n.ne_nil, hwhole, by rwa [binaryName_nil],
        (binaryName_nil _).symm⟩
    rw [L.finds_of_some n dims hlookup]
    refine ⟨fun h ↦ ⟨fun _ ↦ ⟨h.2, Or.inl hwhole⟩, fun hno ↦ absurd ⟨_, hnames⟩ hno⟩, fun h ↦ ?_⟩
    exact ⟨hnames, (h.1 ⟨_, hnames⟩).1⟩
  · have hwhole' : L.jpype (dotted n.parts) = false := Bool.eq_false_iff.mpr hwhole
    rcases L.lookupClass_cases n hwhole' with ⟨hlookup, hno⟩ | ⟨outer, nested, hfirst, hlookup⟩
    · -- No class on the way.
      rw [L.finds_of_none n dims hlookup]
      refine ⟨fun h ↦ ⟨fun hnames ↦ absurd hnames h, fun _ outer nested hf ↦
        absurd hf (hno outer nested)⟩, fun h hnames ↦ ?_⟩
      rcases (h.1 hnames).2 with hw | ⟨outer, nested, hf, -⟩
      · exact hwhole hw
      · exact hno outer nested hf
    · have houter : outer ≠ [] :=
        List.ne_nil_of_length_pos (Nat.lt_of_lt_of_le Nat.zero_lt_two hfirst.two_le)
      by_cases hcaller : L.caller (binaryName outer nested) = true
      · -- The first class has the nested class.
        rw [if_pos hcaller] at hlookup
        have hnames : L.Names n (binaryName outer nested) :=
          ⟨outer, nested, hfirst.split, houter, L.jpype_of_caller _ hfirst.caller,
            L.jpype_of_caller _ hcaller, rfl⟩
        rw [L.finds_of_some n dims hlookup]
        refine ⟨fun h ↦ ⟨fun _ ↦ ⟨h.2, Or.inr ⟨outer, nested, hfirst, hcaller⟩⟩,
          fun hno ↦ absurd ⟨_, hnames⟩ hno⟩, fun h ↦ ?_⟩
        exact ⟨hnames, (h.1 ⟨_, hnames⟩).1⟩
      · -- It has not, and the buffer is left as it is.
        rw [if_neg hcaller] at hlookup
        have hnot : ¬(L.jpype (dotted n.parts) = true ∨ ∃ outer nested,
            L.FirstClass n outer nested ∧ L.caller (binaryName outer nested) = true) := by
          rintro (hw | ⟨outer', nested', hf, hc⟩)
          · exact hwhole hw
          · obtain ⟨rfl, rfl⟩ := hfirst.unique hf
            exact hcaller hc
        rcases hprobe : L.probe (binaryName outer nested) nested with - | name
        · rw [hprobe] at hlookup
          rw [L.finds_of_none n dims hlookup]
          refine ⟨fun h ↦ ⟨fun hnames ↦ absurd hnames h, fun _ outer' nested' hf ↦ ?_⟩,
            fun h hnames ↦ hnot (h.1 hnames).2⟩
          obtain ⟨rfl, rfl⟩ := hfirst.unique hf
          exact (L.probe_eq_none_iff _ _).mp hprobe
        · rw [hprobe] at hlookup
          rw [L.finds_of_some n dims hlookup]
          refine ⟨fun h ↦ ?_, fun h ↦ ?_⟩
          · obtain ⟨outer', nested', hsplit, houter', -, -, heq⟩ := h.1
            exact absurd heq (ne_of_probe houter houter' (hfirst.split.symm.trans hsplit) hprobe)
          · by_cases hnames : ∃ name, L.Names n name
            · exact absurd (h.1 hnames).2 hnot
            · have hnone := (L.probe_eq_none_iff _ _).mpr (h.2 hnames outer nested hfirst)
              rw [hprobe] at hnone
              cases hnone

/-- Classes that both loaders find. -/
def ofClasses (names : List Name) : Loaders where
  jpype := fun name ↦ decide (name ∈ names)
  caller := fun name ↦ decide (name ∈ names)
  jpype_of_caller := fun _ h ↦ h

/-- A class `a.B`, and in a package of the same name a class with a nested one. -/
def samePrefix : Loaders :=
  ofClasses ["a.B".toList, "a.B.C".toList, "a.B.C$D".toList]

/-- The name `a.B.C.D`. -/
def nestedInSamePrefix : DottedName where
  parts := [['a'], ['B'], ['C'], ['D']]
  ne_nil := List.cons_ne_nil _ _
  isComponent := by
    intro part hpart
    simp only [List.mem_cons, List.not_mem_nil, or_false] at hpart
    rcases hpart with rfl | rfl | rfl | rfl <;> exact ⟨by decide, by decide, by decide, by decide,
      by decide⟩

/-- The class `a.B.C$D` is not found: `a.B` is tried first, and leaves `$C$D` in the buffer. -/
theorem not_finds_samePrefix : ¬samePrefix.Finds nestedInSamePrefix 0 := by
  have hlookup : samePrefix.lookupByName (nestedInSamePrefix.written 0) = .ok none := by
    decide +kernel
  have hnames : samePrefix.Names nestedInSamePrefix "a.B.C$D".toList :=
    ⟨[['a'], ['B'], ['C']], [['D']], rfl, List.cons_ne_nil _ _, by decide +kernel,
      by decide +kernel, by decide +kernel⟩
  rintro (⟨name, -, h⟩ | ⟨h, -⟩)
  · rw [hlookup] at h
    injection h with h
    cases h
  · exact h ⟨_, hnames⟩

end Loaders

end JPype.TypeManager
