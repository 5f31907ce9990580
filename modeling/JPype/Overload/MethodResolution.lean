import JPype.Java.Reflection
import Mathlib.Data.List.Perm.Subperm

/-!
# Ordering overloads by specificity

`org.jpype.manager.MethodResolution`: which executable is more specific than which, and the sort
that puts every overload after the strictly less specific ones, its `children`. `sortMethods` is a
queue from which an overload is taken when all its children are out, and to which it returns
otherwise; fuel stands for the number of turns. `sortMethods_ordered`, `sortMethods_executables` and
`children_of_sorted` say what comes out.
-/

namespace JPype

/-- `MethodResolution`, less the native pointer that is set later. An overload is covered once it
is in the sorted list. -/
structure MethodResolution (Cls : Type) where
  executable : Executable Cls
  children : List (Executable Cls)

namespace MethodResolution

variable {Cls : Type} [DecidableEq Cls] (R : Reflection Cls)

/-! ### The relation -/

/-- The table of widening and boxing conversions. -/
def CONVERSION : List (Cls × List Cls) :=
  [(R.TYPE .byte, [R.TYPE .byte, R.box .byte, R.TYPE .short, R.box .short,
      R.TYPE .int, R.box .int, R.TYPE .long, R.box .long,
      R.TYPE .float, R.box .float, R.TYPE .double, R.box .double]),
    (R.TYPE .char, [R.TYPE .char, R.box .char, R.TYPE .short, R.box .short,
      R.TYPE .int, R.box .int, R.TYPE .long, R.box .long,
      R.TYPE .float, R.box .float, R.TYPE .double, R.box .double]),
    (R.TYPE .short, [R.TYPE .short, R.box .short,
      R.TYPE .int, R.box .int, R.TYPE .long, R.box .long,
      R.TYPE .float, R.box .float, R.TYPE .double, R.box .double]),
    (R.TYPE .int, [R.TYPE .int, R.box .int, R.TYPE .long, R.box .long,
      R.TYPE .float, R.box .float, R.TYPE .double, R.box .double]),
    (R.TYPE .long, [R.TYPE .long, R.box .long,
      R.TYPE .float, R.box .float, R.TYPE .double, R.box .double]),
    (R.TYPE .float, [R.TYPE .float, R.box .float, R.TYPE .double, R.box .double]),
    (R.TYPE .double, [R.TYPE .double, R.box .double]),
    (R.TYPE .boolean, [R.TYPE .boolean, R.box .boolean])]

/-- `isAssignableTo` -/
def isAssignableTo (c₁ c₂ : Cls) : Bool :=
  if !R.isPrimitive c₁ then R.isAssignableFrom c₂ c₁
  else
    match (CONVERSION R).lookup c₁ with
    | none => false
    | some cl => cl.contains c₂

/-- The overload of `isMoreSpecificThan` for parameter lists. -/
def isMoreSpecificThanList (param₁ param₂ : List Cls) : Bool :=
  if param₁.length ≠ param₂.length then false
  else (param₁.zip param₂).all fun p ↦ isAssignableTo R p.1 p.2

/-- The parameter list that is compared: the declaring class in front unless the executable is
static. -/
def comparedParameters (method : Executable Cls) : List Cls :=
  if method.kind = .staticMethod then method.parameterTypes
  else method.declaringClass :: method.parameterTypes

omit [DecidableEq Cls] in
theorem comparedParameters_ne_nil {method : Executable Cls} (h : method.isVarArgs = true) :
    comparedParameters method ≠ [] := by
  rw [comparedParameters]
  split_ifs
  · exact method.parameterTypes_ne_nil h
  · exact List.cons_ne_nil _ _

theorem ne_nil_of_length_eq {α : Type} {l l' : List α} (h : l.length = l'.length) (hl : l ≠ []) :
    l' ≠ [] := by
  rintro rfl
  exact hl (List.length_eq_zero_iff.1 h)

/-- A varargs executable against one of fixed arity, as far as this case decides. `param₁` is not
empty. -/
def varArgsAgainstFixed (param₁ param₂ : List Cls) (h₁ : param₁ ≠ []) : Option Bool :=
  let n₁ := param₁.length
  let n₂ := param₂.length
  let cls₂ := R.getComponentType (param₁.getLast h₁)
  if n₁ - 1 = n₂ then some false
  else if h : n₁ = n₂ then
    let q := param₁.set (n₁ - 1) cls₂
    let isMoreSpecific := isMoreSpecificThanList R param₁ param₂ ||
      isMoreSpecificThanList R q param₂
    let svCls := param₂.getLast (ne_nil_of_length_eq h h₁)
    some (isMoreSpecific && !(isAssignableTo R cls₂ svCls && isAssignableTo R svCls cls₂))
  else if n₁ < n₂ then some false
  else none

/-- An executable of fixed arity, or what the case before left, against a varargs one. `param₂` is
not empty. -/
def fixedAgainstVarArgs (param₁ param₂ : List Cls) (h₂ : param₂ ≠ []) : Bool :=
  let n₁ := param₁.length
  let n₂ := param₂.length
  let cls := param₂.getLast h₂
  let cls₂ := R.getComponentType cls
  if n₁ < n₂ - 1 then false
  else if n₁ = n₂ - 1 then isMoreSpecificThanList R param₁ (param₂.take n₁)
  else if h : n₁ = n₂ then
    let lastFixed := param₁.getLast (ne_nil_of_length_eq h.symm h₂)
    ((param₁.take (n₁ - 1)).zip param₂).all (fun p ↦ isAssignableTo R p.1 p.2) &&
      (isAssignableTo R lastFixed cls₂ || isAssignableTo R lastFixed cls)
  else
    ((param₁.zip (param₂.take (n₂ - 1))).all fun p ↦ isAssignableTo R p.1 p.2) &&
      (param₁.drop (n₂ - 1)).all fun c ↦ isAssignableTo R c cls₂

/-- The overload of `isMoreSpecificThan` for executables. -/
def isMoreSpecificThan (method₁ method₂ : Executable Cls) : Bool :=
  let param₁ := comparedParameters method₁
  let param₂ := comparedParameters method₂
  let rest : Bool :=
    if h₂ : method₂.isVarArgs = true then
      fixedAgainstVarArgs R param₁ param₂ (comparedParameters_ne_nil h₂)
    else isMoreSpecificThanList R param₁ param₂
  if h₁ : method₁.isVarArgs = true then
    if method₂.isVarArgs then isMoreSpecificThanList R param₁ param₂
    else (varArgsAgainstFixed R param₁ param₂ (comparedParameters_ne_nil h₁)).getD rest
  else rest

/-- The test by which `sortMethods` makes one executable a child of another. -/
def isStrictlyMoreSpecificThan (method₁ method₂ : Executable Cls) : Bool :=
  isMoreSpecificThan R method₁ method₂ && !isMoreSpecificThan R method₂ method₁

theorem isStrictlyMoreSpecificThan_self (method : Executable Cls) :
    isStrictlyMoreSpecificThan R method method = false := by
  rw [isStrictlyMoreSpecificThan]
  cases isMoreSpecificThan R method method <;> rfl

/-! ### The sort -/

/-- The overloads with their children. -/
def resolutions (methods : List (Executable Cls)) : List (MethodResolution Cls) :=
  methods.map fun m₁ ↦
    { executable := m₁, children := methods.filter (isStrictlyMoreSpecificThan R m₁) }

/-- `isCovered`, where `out` has the covered ones. Of equal executables, all are children if one
is. -/
def isCovered (out : List (MethodResolution Cls)) (ov : MethodResolution Cls) : Bool :=
  ov.children.all fun child ↦ ov.children.count child ≤ (out.map (·.executable)).count child

theorem isCovered_iff {out : List (MethodResolution Cls)} {ov : MethodResolution Cls} :
    isCovered out ov = true ↔ ov.children.Subperm (out.map (·.executable)) := by
  rw [isCovered, List.all_eq_true, List.subperm_ext_iff]
  exact forall₂_congr fun _ _ ↦ decide_eq_true_iff

/-- The queue of `sortMethods`. -/
def sortLoop : ℕ → List (MethodResolution Cls) → List (MethodResolution Cls) →
    Option (List (MethodResolution Cls))
  | _, [], out => some out
  | 0, _ :: _, _ => none
  | fuel + 1, front :: unsorted, out =>
    if isCovered out front then sortLoop fuel unsorted (out ++ [front])
    else sortLoop fuel (unsorted ++ [front]) out

/-- `sortMethods` -/
def sortMethods (fuel : ℕ) (methods : List (Executable Cls)) :
    Option (List (MethodResolution Cls)) :=
  sortLoop fuel (resolutions R methods) []

/-- Every overload comes after its children; `done` are already out. -/
def OrderedAfter (done : List (Executable Cls)) : List (MethodResolution Cls) → Prop
  | [] => True
  | ov :: rest => ov.children.Subperm done ∧ OrderedAfter (done ++ [ov.executable]) rest

omit [DecidableEq Cls] in
theorem OrderedAfter.snoc {done : List (Executable Cls)} {out : List (MethodResolution Cls)}
    {ov : MethodResolution Cls} (hout : OrderedAfter done out)
    (hov : ov.children.Subperm (done ++ out.map (·.executable))) :
    OrderedAfter done (out ++ [ov]) := by
  induction out generalizing done with
  | nil => exact ⟨by simpa using hov, trivial⟩
  | cons first out ih =>
    refine ⟨hout.1, ih hout.2 ?_⟩
    simpa [List.append_assoc] using hov

omit [DecidableEq Cls] in
/-- The children of an overload are among those that are out before it. -/
theorem OrderedAfter.children_subperm {l rest : List (MethodResolution Cls)}
    {ov : MethodResolution Cls} :
    ∀ {done : List (Executable Cls)}, OrderedAfter done (l ++ ov :: rest) →
      ov.children.Subperm (done ++ l.map (·.executable)) := by
  induction l with
  | nil =>
    intro done h
    rw [List.map_nil, List.append_nil]
    exact h.1
  | cons first l ih =>
    intro done h
    have hov := ih h.2
    rwa [List.append_assoc, List.singleton_append] at hov

theorem sortLoop_ordered {fuel : ℕ} {unsorted out sorted : List (MethodResolution Cls)}
    (h : sortLoop fuel unsorted out = some sorted) (hout : OrderedAfter [] out) :
    OrderedAfter [] sorted := by
  induction fuel generalizing unsorted out with
  | zero =>
    cases unsorted with
    | nil => exact Option.some.inj h ▸ hout
    | cons front unsorted => exact absurd h (by simp [sortLoop])
  | succ fuel ih =>
    cases unsorted with
    | nil => exact Option.some.inj h ▸ hout
    | cons front unsorted =>
      rw [sortLoop] at h
      split_ifs at h with hcovered
      · refine ih h (hout.snoc ?_)
        rw [List.nil_append]
        exact isCovered_iff.1 hcovered
      · exact ih h hout

theorem sortLoop_perm {fuel : ℕ} {unsorted out sorted : List (MethodResolution Cls)}
    (h : sortLoop fuel unsorted out = some sorted) : sorted.Perm (out ++ unsorted) := by
  induction fuel generalizing unsorted out with
  | zero =>
    cases unsorted with
    | nil =>
      obtain rfl := Option.some.inj h
      rw [List.append_nil]
    | cons front unsorted => exact absurd h (by simp [sortLoop])
  | succ fuel ih =>
    cases unsorted with
    | nil =>
      obtain rfl := Option.some.inj h
      rw [List.append_nil]
    | cons front unsorted =>
      rw [sortLoop] at h
      split_ifs at h with hcovered
      · have hperm := ih h
        rwa [List.append_assoc, List.singleton_append] at hperm
      · exact (ih h).trans ((List.perm_append_singleton front unsorted).append_left out)

variable {R} {fuel : ℕ} {methods : List (Executable Cls)} {sorted : List (MethodResolution Cls)}

/-- The sorted list has every overload after its children. -/
theorem sortMethods_ordered (h : sortMethods R fuel methods = some sorted) :
    OrderedAfter [] sorted :=
  sortLoop_ordered h trivial

theorem sortMethods_perm (h : sortMethods R fuel methods = some sorted) :
    sorted.Perm (resolutions R methods) :=
  sortLoop_perm h

theorem map_executable_resolutions : (resolutions R methods).map (·.executable) = methods := by
  rw [resolutions, List.map_map]
  exact List.map_id methods

/-- The sort keeps the overloads. -/
theorem sortMethods_executables (h : sortMethods R fuel methods = some sorted) :
    (sorted.map (·.executable)).Perm methods := by
  have hmap := (sortMethods_perm h).map (·.executable)
  rwa [map_executable_resolutions] at hmap

/-- The children are the strictly less specific ones among the methods that are sorted. -/
theorem children_of_sorted (h : sortMethods R fuel methods = some sorted)
    {ov : MethodResolution Cls} (hov : ov ∈ sorted) :
    ov.children = methods.filter (isStrictlyMoreSpecificThan R ov.executable) := by
  obtain ⟨m, -, rfl⟩ := List.mem_map.1 ((sortMethods_perm h).mem_iff.1 hov)
  rfl

theorem mem_children_of_sorted (h : sortMethods R fuel methods = some sorted)
    {ov : MethodResolution Cls} (hov : ov ∈ sorted) {child : Executable Cls} :
    child ∈ ov.children ↔
      child ∈ methods ∧ isStrictlyMoreSpecificThan R ov.executable child = true := by
  rw [children_of_sorted h hov]
  exact List.mem_filter

/-- No overload comes before one that it is strictly more specific than. -/
theorem pairwise_of_sorted (h : sortMethods R fuel methods = some sorted) :
    (sorted.map (·.executable)).Pairwise fun m₁ m₂ ↦
      isStrictlyMoreSpecificThan R m₁ m₂ = false := by
  rw [List.pairwise_map, List.pairwise_iff_forall_sublist]
  intro ov₁ ov₂ hsub
  obtain ⟨r₁, r₂, rfl, h₁, h₂⟩ := List.cons_sublist_iff.1 hsub
  obtain ⟨l, r, rfl⟩ := List.mem_iff_append.1 h₁
  rw [Bool.eq_false_iff]
  intro hspec
  have hchildren := children_of_sorted h (List.mem_append_left r₂ h₁)
  have hordered := sortMethods_ordered h
  rw [List.append_assoc, List.cons_append] at hordered
  -- All that equal `ov₂` are out before `ov₁`, and `ov₂` is not.
  have hsubperm := hordered.children_subperm
  rw [List.nil_append, hchildren] at hsubperm
  have hcount := hsubperm.count_le ov₂.executable
  rw [List.count_filter hspec, ← (sortMethods_executables h).count_eq, List.map_append,
    List.map_append, List.count_append, List.count_append] at hcount
  have hpos : 0 < (r₂.map (·.executable)).count ov₂.executable :=
    List.count_pos_iff.2 (List.mem_map_of_mem (List.singleton_sublist.1 h₂))
  omega

end MethodResolution

end JPype
