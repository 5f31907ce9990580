import JPype.Foundation.Cycles
import JPype.Foundation.Turning
import JPype.Overload.Specificity

/-!
# When the sort of overloads ends

The queue of `sortMethods` runs empty exactly if the strict relation has no cycle
(`sorts_iff_acyclic`). A cycle needs four overloads. Behind the same parameters, `Cloneable` and
`Serializable`, or arrays of them of one dimension, are followed in both by a single parameter and
by a varargs one: an array is assignable to both, so that either varargs overload counts as strictly
more specific than the single one of the other kind (`Tangled`). `sorts_iff` says that there are no
other cycles.

On a cycle all overloads agree in the parameters before the first varargs one. At that place,
nothing ever rises (`Rises`), and only the step from a varargs overload to one of fixed arity can
turn `Cloneable` into `Serializable`, or back (`climb`).
-/

namespace JPype

namespace MethodResolution

open Foundation Relation

variable {Cls : Type} [DecidableEq Cls]

/-! ### The last parameter -/

section LastParameter

variable {H : JavaHierarchy Cls} {arr b c d : Cls}

/-- `Cloneable` and `Serializable`, or arrays of them of one dimension, in either order. -/
def Twins (H : JavaHierarchy Cls) (c d : Cls) : Prop :=
  H.dimension c = H.dimension d ∧
    (H.elem c = H.cloneable ∧ H.elem d = H.serializable ∨
      H.elem c = H.serializable ∧ H.elem d = H.cloneable)

omit [DecidableEq Cls] in
theorem Twins.height_eq (h : Twins H c d) : H.height d = H.height c := by
  obtain ⟨hdim, ⟨hc, hd⟩ | ⟨hc, hd⟩⟩ := h
  · rw [JavaHierarchy.height, JavaHierarchy.height, hc, hd, hdim,
      if_neg H.object_ne_serializable.symm, if_neg H.object_ne_cloneable.symm]
  · rw [JavaHierarchy.height, JavaHierarchy.height, hc, hd, hdim,
      if_neg H.object_ne_serializable.symm, if_neg H.object_ne_cloneable.symm]

omit [DecidableEq Cls] in
theorem Twins.symm (h : Twins H c d) : Twins H d c :=
  ⟨h.1.symm, h.2.symm.imp And.symm And.symm⟩

omit [DecidableEq Cls] in
theorem Twins.top (h : Twins H c d) : H.Top c :=
  h.2.elim (fun h ↦ .inr (.inl h.1)) fun h ↦ .inr (.inr h.1)

omit [DecidableEq Cls] in
theorem Twins.elem_ne (h : Twins H c d) : H.elem c ≠ H.elem d := by
  obtain ⟨-, ⟨hc, hd⟩ | ⟨hc, hd⟩⟩ := h
  · rw [hc, hd]
    exact H.cloneable_ne_serializable
  · rw [hc, hd]
    exact H.cloneable_ne_serializable.symm

omit [DecidableEq Cls] in
/-- A class has one twin. -/
theorem Twins.unique (h : Twins H c d) (h' : Twins H d b) : b = c := by
  obtain ⟨hdim, helem⟩ := h
  obtain ⟨hdim', helem'⟩ := h'
  refine JavaHierarchy.eq_of_elem (hdim'.symm.trans hdim.symm) ?_
  rcases helem with ⟨hc, hd⟩ | ⟨hc, hd⟩
  · rw [hd] at helem'
    exact (helem'.resolve_left fun h ↦ H.cloneable_ne_serializable h.1.symm).2.trans hc.symm
  · rw [hd] at helem'
    exact (helem'.resolve_right fun h ↦ H.cloneable_ne_serializable h.1).2.trans hc.symm

omit [DecidableEq Cls] in
theorem Twins.not_isAssignableFrom (h : Twins H c d) : ¬H.isAssignableFrom d c = true := by
  intro hassign
  obtain ⟨-, heq | hlt⟩ := h.top.of_isAssignableFrom hassign
  · exact h.elem_ne (congrArg H.elem heq.symm)
  · exact absurd h.height_eq (Nat.ne_of_lt hlt)

omit [DecidableEq Cls] in
/-- The arrays of one twin are assignable to the other, which is not assignable to them. -/
theorem Twins.isAssignableFrom_array (h : Twins H c d) (harr : H.isArray arr = true)
    (hc : H.getComponentType arr = c) :
    ¬H.isAssignableFrom arr d = true ∧ H.isAssignableFrom d arr = true := by
  have hdim := H.dimension_array harr
  have hdim' := h.1
  rw [hc] at hdim
  refine ⟨fun hassign ↦ ?_, JavaHierarchy.isAssignableFrom_iff.2 (.inr ⟨?_, h.symm.top⟩)⟩
  · rcases JavaHierarchy.isAssignableFrom_iff.1 hassign with ⟨heq, -⟩ | ⟨hlt, -⟩ <;> omega
  · omega

omit [DecidableEq Cls] in
/-- Of two arrays over classes above all arrays, the second is assignable to the first, or it lies
higher, or they are twins. -/
theorem lt_or_twins (hc : H.Top c) (hb : H.Top b) (h : ¬H.isAssignableFrom c b = true) :
    H.height b < H.height c ∨ Twins H c b := by
  rw [JavaHierarchy.isAssignableFrom_iff, not_or] at h
  obtain ⟨hsame, hmore⟩ := h
  have hle : H.dimension b ≤ H.dimension c := Nat.not_lt.1 fun hlt ↦ hmore ⟨hlt, hc⟩
  rcases Nat.lt_or_eq_of_le hle with hlt | hdim
  · have hb' := JavaHierarchy.height_le (H := H) b
    have hc' := JavaHierarchy.le_height (H := H) c
    exact .inl (by omega)
  · have helem : ¬H.isAssignableFrom (H.elem c) (H.elem b) = true := fun h ↦ hsame ⟨hdim.symm, h⟩
    have hhigher : H.elem b = H.object → H.elem c ≠ H.object → H.height b < H.height c := by
      intro hobject hne
      rw [JavaHierarchy.height, JavaHierarchy.height, if_pos hobject, if_neg hne, hdim]
      omega
    rcases hc with hc | hc | hc
    · -- Everything here is assignable to `Object`.
      rw [hc] at helem
      rcases hb with hb | hb | hb
      · exact absurd (hb ▸ H.isAssignableFrom_refl _) helem
      · exact absurd (hb ▸ H.isAssignableFrom_cloneable.2 (.inr rfl)) helem
      · exact absurd (hb ▸ H.isAssignableFrom_serializable.2 (.inr rfl)) helem
    · rcases hb with hb | hb | hb
      · exact .inl (hhigher hb (hc ▸ H.object_ne_cloneable.symm))
      · exact absurd (hb ▸ hc ▸ H.isAssignableFrom_refl _) helem
      · exact .inr ⟨hdim.symm, .inl ⟨hc, hb⟩⟩
    · rcases hb with hb | hb | hb
      · exact .inl (hhigher hb (hc ▸ H.object_ne_serializable.symm))
      · exact .inr ⟨hdim.symm, .inr ⟨hc, hb⟩⟩
      · exact absurd (hb ▸ hc ▸ H.isAssignableFrom_refl _) helem

/-- From the component of a varargs parameter to a parameter to which it, or the array, is
assignable, and which is assignable to neither. -/
theorem climb (harr : H.isArray arr = true)
    (hspec : isAssignableTo H.toReflection arr b = true ∨
      isAssignableTo H.toReflection (H.getComponentType arr) b = true)
    (hcomponent : ¬isAssignableTo H.toReflection b (H.getComponentType arr) = true)
    (harray : ¬isAssignableTo H.toReflection b arr = true) :
    Rises H (H.getComponentType arr) b ∧
      (Rises H b (H.getComponentType arr) → Twins H (H.getComponentType arr) b) := by
  have helem := JavaHierarchy.elem_array harr
  rcases hspec with hspec | hspec
  · have hbelow := Below.of_isAssignableTo hspec
    by_cases htop : H.Top (H.getComponentType arr)
    · have hb : H.Top b := (hbelow.top (by rwa [JavaHierarchy.Top, helem])).1
      rw [isAssignableTo_reference hb.isPrimitive] at hcomponent
      have hheight := lt_or_twins htop hb hcomponent
      refine ⟨⟨fun _ ↦ ⟨hb, ?_⟩, fun hnot ↦ absurd hb hnot⟩, fun hrises ↦ ?_⟩
      · exact hheight.elim Nat.le_of_lt fun h ↦ Nat.le_of_eq h.height_eq
      · exact hheight.resolve_left (Nat.not_lt.2 (hrises.top hb).2)
    · refine ⟨⟨fun h ↦ absurd h htop, fun hb ↦ ?_⟩, fun hrises ↦ ?_⟩
      · obtain ⟨-, -, hbelow'⟩ := hbelow.of_not_top hb
        exact ⟨htop, helem ▸ hbelow'⟩
      · -- Not higher than the array, the parameter is the array.
        obtain ⟨hb, helem'⟩ := hrises.elem htop
        have heq : b = arr := by
          refine Rises.eq_of_below hbelow ⟨fun h ↦ absurd h hb, fun _ ↦ ⟨hb, ?_⟩⟩
          rwa [helem]
        subst heq
        rw [isAssignableTo_reference (H.isPrimitive_array harr)] at harray
        exact absurd (H.isAssignableFrom_refl _) harray
  · have hbelow := Below.of_isAssignableTo hspec
    refine ⟨Rises.of_below hbelow, fun hrises ↦ ?_⟩
    rw [Rises.eq_of_below hbelow hrises] at hspec hcomponent
    exact absurd hspec hcomponent

/-- From a parameter to the component of a varargs one if it is assignable to that, or to the
array. -/
theorem descend (harr : H.isArray arr = true)
    (hspec : isAssignableTo H.toReflection b (H.getComponentType arr) = true ∨
      isAssignableTo H.toReflection b arr = true) :
    Rises H b (H.getComponentType arr) ∧
      (H.Top b → Rises H (H.getComponentType arr) b → H.getComponentType arr = b) := by
  have hdim := H.dimension_array harr
  have helem := JavaHierarchy.elem_array harr
  rcases hspec with hspec | hspec
  · have hbelow := Below.of_isAssignableTo hspec
    exact ⟨Rises.of_below hbelow, fun _ ↦ Rises.eq_of_below hbelow⟩
  · have hbelow := Below.of_isAssignableTo hspec
    have hlt : H.Top b → H.Top (H.getComponentType arr) ∧
        H.height (H.getComponentType arr) < H.height b := by
      intro hb
      obtain ⟨htop, hheight⟩ := hbelow.top hb
      refine ⟨by rwa [JavaHierarchy.Top, ← helem], ?_⟩
      have hle : H.height arr ≤ H.height b :=
        hheight.elim (fun h ↦ Nat.le_of_eq (h ▸ rfl)) Nat.le_of_lt
      rw [JavaHierarchy.height, hdim, helem] at hle
      rw [JavaHierarchy.height]
      omega
    refine ⟨⟨fun hb ↦ (hlt hb).imp_right Nat.le_of_lt, fun hc ↦ ?_⟩, fun hb hrises ↦ ?_⟩
    · have hnot : ¬H.Top arr := by rwa [JavaHierarchy.Top, helem]
      obtain ⟨hb, -, hbelow'⟩ := hbelow.of_not_top hnot
      exact ⟨hb, helem ▸ hbelow'⟩
    · obtain ⟨htop, hlt'⟩ := hlt hb
      exact absurd hlt' (Nat.not_lt.2 (hrises.top htop).2)

end LastParameter

/-! ### Parameter lists -/

section Parameters

variable {H : JavaHierarchy Cls} {A B C : List Cls}

omit [DecidableEq Cls] in
theorem forall₂_below_trans (h : List.Forall₂ (Below H) A B) :
    ∀ {C}, List.Forall₂ (Below H) B C → List.Forall₂ (Below H) A C := by
  induction h with
  | nil => exact id
  | cons hab _ ih =>
    rintro _ (_ | ⟨hbc, hBC⟩)
    exact .cons (hab.trans hbc) (ih hBC)

omit [DecidableEq Cls] in
theorem forall₂_below_antisymm (h : List.Forall₂ (Below H) A B)
    (h' : List.Forall₂ (Below H) B A) : A = B := by
  induction h with
  | nil => rfl
  | cons hab _ ih =>
    obtain ⟨hba, hBA⟩ := List.forall₂_cons.1 h'
    rw [hab.antisymm hba, ih hBA]

theorem Assignable.below (h : Assignable H.toReflection A B) : List.Forall₂ (Below H) A B :=
  h.imp fun _ _ ↦ Below.of_isAssignableTo

theorem assignable_self (h : ∀ c ∈ A, c ≠ H.voidTYPE) : Assignable H.toReflection A A :=
  List.forall₂_same.2 fun c hc ↦ isAssignableTo_self (h c hc)

/-- The parameters before a place. -/
theorem Assignable.take_append {R : Reflection Cls} (h : Assignable R A B) {p : ℕ}
    (hp : p ≤ A.length) (rest rest' : List Cls) :
    Assignable R ((A ++ rest).take p) ((B ++ rest').take p) := by
  rw [List.take_append_of_le_length hp, List.take_append_of_le_length (h.length_eq ▸ hp)]
  exact List.forall₂_take p h

/-- The parameters at a place. -/
theorem Assignable.getD_append {R : Reflection Cls} (h : Assignable R A B) {p : ℕ}
    (hp : p < A.length) (rest rest' : List Cls) (x : Cls) :
    isAssignableTo R ((A ++ rest)[p]?.getD x) ((B ++ rest')[p]?.getD x) = true := by
  have hp' : p < B.length := h.length_eq ▸ hp
  have hget := (List.forall₂_iff_get.1 h).2 p hp hp'
  rw [List.getElem?_append_left hp, List.getElem?_append_left hp',
    List.getElem?_eq_getElem hp, List.getElem?_eq_getElem hp']
  exact hget

end Parameters

/-! ### Steps of a cycle -/

section Steps

/-- What reflection shows of an executable: `void` is not the type of a parameter, and the varargs
parameter is an array. -/
structure Declarable (H : JavaHierarchy Cls) (m : Executable Cls) : Prop where
  declaringClass_ne_void : m.declaringClass ≠ H.voidTYPE
  parameterTypes_ne_void : ∀ c ∈ m.parameterTypes, c ≠ H.voidTYPE
  isArray_varArgs : m.isVarArgs = true → ∀ arr ∈ m.parameterTypes.getLast?, H.isArray arr = true

variable {H : JavaHierarchy Cls} {m m₁ m₂ : Executable Cls} {p : ℕ}

omit [DecidableEq Cls] in
theorem Declarable.ne_void (h : Declarable H m) : ∀ c ∈ comparedParameters m, c ≠ H.voidTYPE := by
  rw [comparedParameters]
  split_ifs
  · exact h.parameterTypes_ne_void
  · exact List.forall_mem_cons.2 ⟨h.declaringClass_ne_void, h.parameterTypes_ne_void⟩

omit [DecidableEq Cls] in
/-- The parameters of a varargs executable. -/
theorem Declarable.exists_varArgs (h : Declarable H m) (hm : m.isVarArgs = true) :
    ∃ P arr, comparedParameters m = P ++ [arr] ∧ H.isArray arr = true := by
  obtain hnil | ⟨P, arr, hP⟩ := List.eq_nil_or_concat' m.parameterTypes
  · exact absurd hnil (m.parameterTypes_ne_nil hm)
  · have harr := h.isArray_varArgs hm arr (by rw [hP]; simp)
    rw [comparedParameters, hP]
    split_ifs
    · exact ⟨P, arr, rfl, harr⟩
    · exact ⟨m.declaringClass :: P, arr, rfl, harr⟩

/-- The varargs parameter is at place `p`. -/
def VarArgsAt (p : ℕ) (m : Executable Cls) : Prop :=
  m.isVarArgs = true ∧ (comparedParameters m).length = p + 1

open Classical in
/-- The parameter at place `p`; of the varargs parameter, the component. -/
noncomputable def valueAt (H : JavaHierarchy Cls) (p : ℕ) (m : Executable Cls) : Cls :=
  if VarArgsAt p m then H.getComponentType ((comparedParameters m)[p]?.getD H.object)
  else (comparedParameters m)[p]?.getD H.object

/-- What a step from `m₁` to the strictly less specific `m₂` does at place `p`. -/
inductive Move (H : JavaHierarchy Cls) (p : ℕ) (m₁ m₂ : Executable Cls) : Prop
  /-- From a varargs parameter to a single one. -/
  | climb : VarArgsAt p m₁ → m₂.isVarArgs = false → (comparedParameters m₂).length = p + 1 →
      Rises H (valueAt H p m₁) (valueAt H p m₂) →
      (Rises H (valueAt H p m₂) (valueAt H p m₁) → Twins H (valueAt H p m₁) (valueAt H p m₂)) →
      Move H p m₁ m₂
  | other : ¬(VarArgsAt p m₁ ∧ m₂.isVarArgs = false) →
      Rises H (valueAt H p m₁) (valueAt H p m₂) →
      (H.Top (valueAt H p m₁) → Rises H (valueAt H p m₂) (valueAt H p m₁) →
        valueAt H p m₂ = valueAt H p m₁) →
      Move H p m₁ m₂

/-- The parameters before place `p`. -/
theorem take_assignable (h₁ : Declarable H m₁) (h₂ : Declarable H m₂)
    (hspec : isMoreSpecificThan H.toReflection m₁ m₂ = true)
    (hp₁ : p < (comparedParameters m₁).length) (hp₂ : p < (comparedParameters m₂).length) :
    Assignable H.toReflection ((comparedParameters m₁).take p)
      ((comparedParameters m₂).take p) := by
  by_cases hkind : m₁.isVarArgs = m₂.isVarArgs
  · exact List.forall₂_take p ((isMoreSpecificThan_of_eq hkind).1 hspec)
  · cases hm₁ : m₁.isVarArgs with
    | true =>
      have hm₂ : m₂.isVarArgs = false := Bool.eq_false_iff.2 fun hm₂ ↦ hkind (hm₁.trans hm₂.symm)
      obtain ⟨P, arr, hP, -⟩ := h₁.exists_varArgs hm₁
      obtain ⟨Q, b, hQ, hPQ, -⟩ := (varArgs_fixed_iff hm₁ hm₂ hP).1 hspec
      rw [hP, List.length_append, List.length_singleton] at hp₁
      rw [hP, hQ]
      exact hPQ.take_append (Nat.le_of_lt_succ hp₁) _ _
    | false =>
      have hm₂ : m₂.isVarArgs = true := Bool.not_eq_false _ ▸ fun hm₂ ↦ hkind (hm₁.trans hm₂.symm)
      obtain ⟨Q, arr, hQ, -⟩ := h₂.exists_varArgs hm₂
      obtain ⟨P, rest, hP, hPQ, -⟩ := (fixed_varArgs_iff hm₁ hm₂ hQ).1 hspec
      rw [hQ, List.length_append, List.length_singleton, ← hPQ.length_eq] at hp₂
      rw [hP, hQ]
      exact hPQ.take_append (Nat.le_of_lt_succ hp₂) _ _

omit [DecidableEq Cls] in
theorem valueAt_varArgs {P : List Cls} {arr : Cls} (hm : m.isVarArgs = true)
    (hP : comparedParameters m = P ++ [arr]) (hp : P.length = p) :
    VarArgsAt p m ∧ valueAt H p m = H.getComponentType arr := by
  have hat : VarArgsAt p m := ⟨hm, by rw [hP, List.length_append, hp]; rfl⟩
  refine ⟨hat, ?_⟩
  rw [valueAt, if_pos hat, hP, List.getElem?_append_right (Nat.le_of_eq hp), hp, Nat.sub_self]
  rfl

omit [DecidableEq Cls] in
theorem valueAt_of_not (h : ¬VarArgsAt p m) :
    valueAt H p m = (comparedParameters m)[p]?.getD H.object :=
  if_neg h

omit [DecidableEq Cls] in
theorem not_varArgsAt_of_fixed (hm : m.isVarArgs = false) : ¬VarArgsAt p m :=
  fun h ↦ Bool.noConfusion (hm.symm.trans h.1)

omit [DecidableEq Cls] in
theorem not_varArgsAt_of_lt {P : List Cls} {arr : Cls} (hP : comparedParameters m = P ++ [arr])
    (hp : p < P.length) : ¬VarArgsAt p m := by
  rintro ⟨-, hlength⟩
  rw [hP, List.length_append, List.length_singleton] at hlength
  omega

omit [DecidableEq Cls] in
theorem Move.of_below (hnot : ¬(VarArgsAt p m₁ ∧ m₂.isVarArgs = false))
    (h : Below H (valueAt H p m₁) (valueAt H p m₂)) : Move H p m₁ m₂ :=
  .other hnot (Rises.of_below h) fun _ ↦ Rises.eq_of_below h

/-- Between executables of the same kind. -/
theorem move_of_eq (h₁ : Declarable H m₁) (h₂ : Declarable H m₂)
    (hkind : m₁.isVarArgs = m₂.isVarArgs)
    (hspec : isMoreSpecificThan H.toReflection m₁ m₂ = true)
    (hp : p < (comparedParameters m₁).length) : Move H p m₁ m₂ := by
  have hAB := (isMoreSpecificThan_of_eq hkind).1 hspec
  have hnot : ¬(VarArgsAt p m₁ ∧ m₂.isVarArgs = false) := by
    rintro ⟨hat, hm₂⟩
    exact Bool.noConfusion (hat.1.symm.trans (hkind.trans hm₂))
  by_cases hat : VarArgsAt p m₁
  · -- The arrays are assignable, and so are their components.
    obtain ⟨hm₁, hlength⟩ := hat
    have hm₂ := hkind.symm.trans hm₁
    obtain ⟨P, arr, hP, harr⟩ := h₁.exists_varArgs hm₁
    obtain ⟨Q, arr', hQ, harr'⟩ := h₂.exists_varArgs hm₂
    rw [hP, hQ, Assignable, Forall₂.concat_iff] at hAB
    obtain ⟨hPQ, hlast⟩ := hAB
    rw [hP, List.length_append, List.length_singleton] at hlength
    have hp₁ : P.length = p := Nat.succ.inj hlength
    have hv₁ := (valueAt_varArgs (H := H) hm₁ hP hp₁).2
    have hv₂ := (valueAt_varArgs (H := H) hm₂ hQ (hPQ.length_eq.symm.trans hp₁)).2
    refine Move.of_below hnot ?_
    rw [isAssignableTo_reference (H.isPrimitive_array harr), H.isAssignableFrom_array harr] at hlast
    have habove : ¬H.AboveArrays arr' := fun h ↦ Bool.noConfusion (h.isArray.symm.trans harr')
    obtain ⟨-, hcomponent⟩ := hlast.resolve_left habove
    rw [hv₁, hv₂]
    cases hprimitive : H.isPrimitive (H.getComponentType arr) with
    | false => exact .reference hprimitive hcomponent
    | true =>
      rw [H.isAssignableFrom_primitive (.inr hprimitive) hcomponent]
      exact .refl _
  · have hat' : ¬VarArgsAt p m₂ := by
      rintro ⟨hm₂, hlength⟩
      exact hat ⟨hkind.trans hm₂, hAB.length_eq.trans hlength⟩
    refine Move.of_below hnot ?_
    have hslot := hAB.getD_append hp [] [] H.object
    rw [List.append_nil, List.append_nil] at hslot
    rw [valueAt_of_not hat, valueAt_of_not hat']
    exact Below.of_isAssignableTo hslot

/-- From a varargs executable to one of fixed arity. -/
theorem move_to_fixed (h₁ : Declarable H m₁) (hm₁ : m₁.isVarArgs = true)
    (hm₂ : m₂.isVarArgs = false) (hspec : isMoreSpecificThan H.toReflection m₁ m₂ = true)
    (hnot : ¬isMoreSpecificThan H.toReflection m₂ m₁ = true)
    (hp : p < (comparedParameters m₁).length)
    (hprior : (comparedParameters m₁).take p = (comparedParameters m₂).take p) :
    Move H p m₁ m₂ := by
  obtain ⟨P, arr, hP, harr⟩ := h₁.exists_varArgs hm₁
  obtain ⟨Q, b, hQ, hPQ, hlast, hdiff⟩ := (varArgs_fixed_iff hm₁ hm₂ hP).1 hspec
  have hat₂ := not_varArgsAt_of_fixed (p := p) hm₂
  rw [hP, List.length_append, List.length_singleton] at hp
  rcases Nat.lt_or_eq_of_le (Nat.le_of_lt_succ hp) with hlt | rfl
  · refine Move.of_below (fun h ↦ not_varArgsAt_of_lt hP hlt h.1) ?_
    rw [valueAt_of_not (not_varArgsAt_of_lt hP hlt), valueAt_of_not hat₂, hP, hQ]
    exact Below.of_isAssignableTo (hPQ.getD_append hlt _ _ _)
  · -- The parameters before the varargs one are the same, so that the last one must fail.
    have hPQ' : P = Q := by
      rw [hP, hQ, List.take_left, hPQ.length_eq, List.take_left] at hprior
      exact hprior
    subst hPQ'
    have hself : Assignable H.toReflection P P := by
      refine assignable_self fun c hc ↦ h₁.ne_void c ?_
      rw [hP]
      exact List.mem_append_left _ hc
    have hvarArgs := (fixed_varArgs_iff hm₂ hm₁ hP).not.1 hnot
    have hcomponent : ¬isAssignableTo H.toReflection b (H.getComponentType arr) = true := by
      intro hb
      refine hvarArgs ⟨P, [b], hQ, hself, .inl fun c hc ↦ ?_⟩
      rwa [List.mem_singleton.1 hc]
    have harray : ¬isAssignableTo H.toReflection b arr = true :=
      fun hb ↦ hvarArgs ⟨P, [b], hQ, hself, .inr ⟨b, rfl, hb⟩⟩
    obtain ⟨hat₁, hv₁⟩ := valueAt_varArgs (H := H) hm₁ hP rfl
    have hv₂ : valueAt H P.length m₂ = b := by
      rw [valueAt_of_not hat₂, hQ, List.getElem?_append_right (Nat.le_refl _), Nat.sub_self]
      rfl
    have hclimb := climb harr hlast hcomponent harray
    rw [← hv₁, ← hv₂] at hclimb
    refine .climb hat₁ hm₂ ?_ hclimb.1 hclimb.2
    rw [hQ, List.length_append, List.length_singleton]

/-- From an executable of fixed arity to a varargs one. -/
theorem move_to_varArgs (h₂ : Declarable H m₂) (hm₁ : m₁.isVarArgs = false)
    (hm₂ : m₂.isVarArgs = true) (hspec : isMoreSpecificThan H.toReflection m₁ m₂ = true)
    (hp₁ : p < (comparedParameters m₁).length) (hp₂ : p < (comparedParameters m₂).length) :
    Move H p m₁ m₂ := by
  obtain ⟨Q, arr, hQ, harr⟩ := h₂.exists_varArgs hm₂
  obtain ⟨P, rest, hP, hPQ, hrest⟩ := (fixed_varArgs_iff hm₁ hm₂ hQ).1 hspec
  have hat₁ := not_varArgsAt_of_fixed (p := p) hm₁
  rw [hQ, List.length_append, List.length_singleton] at hp₂
  rcases Nat.lt_or_eq_of_le (Nat.le_of_lt_succ hp₂) with hlt | rfl
  · refine Move.of_below (fun h ↦ hat₁ h.1) ?_
    rw [valueAt_of_not hat₁, valueAt_of_not (not_varArgsAt_of_lt hQ hlt), hP, hQ]
    exact Below.of_isAssignableTo (hPQ.getD_append (hPQ.length_eq ▸ hlt) _ _ _)
  · obtain ⟨-, hv₂⟩ := valueAt_varArgs (H := H) hm₂ hQ rfl
    have hv₁ : valueAt H Q.length m₁ = rest[0]?.getD H.object := by
      rw [valueAt_of_not hat₁, hP, List.getElem?_append_right (Nat.le_of_eq hPQ.length_eq),
        hPQ.length_eq, Nat.sub_self]
    cases rest with
    | nil =>
      rw [hP, List.append_nil, hPQ.length_eq] at hp₁
      exact absurd hp₁ (Nat.lt_irrefl _)
    | cons b rest =>
      have hb : isAssignableTo H.toReflection b (H.getComponentType arr) = true ∨
          isAssignableTo H.toReflection b arr = true := by
        rcases hrest with hall | ⟨b', heq, hb'⟩
        · exact .inl (hall b List.mem_cons_self)
        · obtain ⟨rfl, -⟩ := List.cons.inj heq
          exact .inr hb'
      have hdescend := descend harr hb
      have hb₁ : valueAt H Q.length m₁ = b := hv₁
      rw [← hv₂, ← hb₁] at hdescend
      exact .other (fun h ↦ hat₁ h.1) hdescend.1 hdescend.2

theorem move (h₁ : Declarable H m₁) (h₂ : Declarable H m₂)
    (hstrict : isStrictlyMoreSpecificThan H.toReflection m₁ m₂ = true)
    (hp₁ : p < (comparedParameters m₁).length) (hp₂ : p < (comparedParameters m₂).length)
    (hprior : (comparedParameters m₁).take p = (comparedParameters m₂).take p) :
    Move H p m₁ m₂ := by
  rw [isStrictlyMoreSpecificThan, Bool.and_eq_true, Bool.not_eq_true', ← Bool.not_eq_true]
    at hstrict
  obtain ⟨hspec, hnot⟩ := hstrict
  by_cases hkind : m₁.isVarArgs = m₂.isVarArgs
  · exact move_of_eq h₁ h₂ hkind hspec hp₁
  · cases hm₁ : m₁.isVarArgs with
    | true =>
      have hm₂ : m₂.isVarArgs = false := Bool.eq_false_iff.2 fun hm₂ ↦ hkind (hm₁.trans hm₂.symm)
      exact move_to_fixed h₁ hm₁ hm₂ hspec hnot hp₁ hprior
    | false =>
      have hm₂ : m₂.isVarArgs = true := Bool.not_eq_false _ ▸ fun hm₂ ↦ hkind (hm₁.trans hm₂.symm)
      exact move_to_varArgs h₂ hm₁ hm₂ hspec hp₁ hp₂

end Steps

/-! ### Cycles -/

/-- Of the methods of a list, one is strictly more specific than the other. -/
def Edge (R : Reflection Cls) (methods : List (Executable Cls)) (m₁ m₂ : Executable Cls) : Prop :=
  m₁ ∈ methods ∧ m₂ ∈ methods ∧ isStrictlyMoreSpecificThan R m₁ m₂ = true

/-- One of the methods has the parameters `P` and a single `c`. -/
def HasSingle (methods : List (Executable Cls)) (P : List Cls) (c : Cls) : Prop :=
  ∃ m ∈ methods, m.isVarArgs = false ∧ comparedParameters m = P ++ [c]

/-- One of the methods has the parameters `P` and the varargs parameter `c...`. -/
def HasVarArgs (R : Reflection Cls) (methods : List (Executable Cls)) (P : List Cls) (c : Cls) :
    Prop :=
  ∃ m ∈ methods, m.isVarArgs = true ∧ ∃ arr, comparedParameters m = P ++ [arr] ∧
    R.getComponentType arr = c

/-- Behind the same parameters, `Cloneable` and `Serializable`, or arrays of them of one dimension,
both as a single and as a varargs parameter. -/
def Tangled (H : JavaHierarchy Cls) (methods : List (Executable Cls)) : Prop :=
  ∃ P c d, Twins H c d ∧
    HasSingle methods P c ∧ HasVarArgs H.toReflection methods P c ∧
    HasSingle methods P d ∧ HasVarArgs H.toReflection methods P d

section Cycle

variable {H : JavaHierarchy Cls} {methods : List (Executable Cls)} {m x y : Executable Cls} {p : ℕ}

theorem OnCycle.mem {R : Reflection Cls} (hx : OnCycle (Edge R methods) m x) : x ∈ methods := by
  obtain ⟨y, hxy, -⟩ := TransGen.head'_iff.1 hx.2
  exact hxy.1

theorem Edge.isMoreSpecificThan {R : Reflection Cls} (h : Edge R methods x y) :
    isMoreSpecificThan R x y = true ∧ ¬isMoreSpecificThan R y x = true := by
  obtain ⟨-, -, hstrict⟩ := h
  rwa [isStrictlyMoreSpecificThan, Bool.and_eq_true, Bool.not_eq_true', ← Bool.not_eq_true]
    at hstrict

/-- The methods on a cycle are not all of the same kind. -/
theorem exists_kinds (hdecl : ∀ m ∈ methods, Declarable H m)
    (hm : TransGen (Edge H.toReflection methods) m m) :
    ∃ x, OnCycle (Edge H.toReflection methods) m x ∧ x.isVarArgs ≠ m.isVarArgs := by
  by_contra hnone
  have hkind : ∀ {x}, OnCycle (Edge H.toReflection methods) m x → x.isVarArgs = m.isVarArgs :=
    fun {x} hx ↦ Classical.byContradiction fun hne ↦ hnone ⟨x, hx, hne⟩
  have hbelow : ∀ {x y}, OnCycle (Edge H.toReflection methods) m x →
      OnCycle (Edge H.toReflection methods) m y →
      List.Forall₂ (Below H) (comparedParameters x) (comparedParameters y) := by
    intro x y
    refine OnCycle.related
      (fun x y ↦ List.Forall₂ (Below H) (comparedParameters x) (comparedParameters y))
      (fun x ↦ List.forall₂_same.2 fun c _ ↦ .refl c)
      (fun x y z h h' ↦ forall₂_below_trans h h') fun x y hx hy hxy ↦ ?_
    have hspec := hxy.isMoreSpecificThan.1
    exact ((isMoreSpecificThan_of_eq ((hkind hx).trans (hkind hy).symm)).1 hspec).below
  obtain ⟨y, hmy, hy⟩ := OnCycle.exists_next hm
  have hself := OnCycle.self hm
  have heq := forall₂_below_antisymm (hbelow hy hself) (hbelow hself hy)
  refine hmy.isMoreSpecificThan.2 ((isMoreSpecificThan_of_eq (hkind hy)).2 ?_)
  rw [heq]
  exact assignable_self (hdecl m hmy.1).ne_void

/-- The place of the first varargs parameter on a cycle. -/
theorem exists_place (hdecl : ∀ m ∈ methods, Declarable H m)
    (hm : TransGen (Edge H.toReflection methods) m m) :
    ∃ p, (∃ x, OnCycle (Edge H.toReflection methods) m x ∧ VarArgsAt p x) ∧
      ∀ x, OnCycle (Edge H.toReflection methods) m x → x.isVarArgs = true →
        p < (comparedParameters x).length := by
  classical
  have hex : ∃ n, ∃ x, OnCycle (Edge H.toReflection methods) m x ∧ x.isVarArgs = true ∧
      (comparedParameters x).length = n := by
    obtain ⟨x, hx, hne⟩ := exists_kinds hdecl hm
    cases hxv : x.isVarArgs with
    | true => exact ⟨_, x, hx, hxv, rfl⟩
    | false =>
      rw [hxv] at hne
      exact ⟨_, m, OnCycle.self hm, Bool.eq_true_of_not_eq_false hne.symm, rfl⟩
  obtain ⟨x, hx, hxv, hlength⟩ := Nat.find_spec hex
  obtain ⟨P, arr, hP, -⟩ := (hdecl x (OnCycle.mem hx)).exists_varArgs hxv
  have hpos : (comparedParameters x).length = P.length + 1 := by
    rw [hP, List.length_append, List.length_singleton]
  refine ⟨P.length, ⟨x, hx, hxv, hpos⟩, fun y hy hyv ↦ ?_⟩
  have hmin := Nat.find_min' hex ⟨y, hy, hyv, rfl⟩
  omega

/-- What a step keeps of the lengths. -/
theorem lt_length_of_edge (hdecl : ∀ m ∈ methods, Declarable H m)
    (hxy : Edge H.toReflection methods x y)
    (hy : y.isVarArgs = true → p < (comparedParameters y).length)
    (hx : p < (comparedParameters x).length) : p < (comparedParameters y).length := by
  cases hyv : y.isVarArgs with
  | true => exact hy hyv
  | false =>
    have hspec := hxy.isMoreSpecificThan.1
    cases hxv : x.isVarArgs with
    | true =>
      obtain ⟨P, arr, hP, -⟩ := (hdecl x hxy.1).exists_varArgs hxv
      obtain ⟨Q, b, hQ, hPQ, -⟩ := (varArgs_fixed_iff hxv hyv hP).1 hspec
      rw [hP, List.length_append, hPQ.length_eq] at hx
      rwa [hQ, List.length_append]
    | false =>
      have hxy' := (isMoreSpecificThan_of_eq (hxv.trans hyv.symm)).1 hspec
      rwa [← hxy'.length_eq]

/-- A varargs parameter at the place stays there as long as the steps lead to varargs methods. -/
theorem varArgsAt_of_edge (hxy : Edge H.toReflection methods x y) (hx : VarArgsAt p x)
    (hy : y.isVarArgs = true) : VarArgsAt p y := by
  have hspec := (isMoreSpecificThan_of_eq (hx.1.trans hy.symm)).1 hxy.isMoreSpecificThan.1
  exact ⟨hy, hspec.length_eq.symm.trans hx.2⟩

section Place

variable (hdecl : ∀ m ∈ methods, Declarable H m)
  (hlength : ∀ x, OnCycle (Edge H.toReflection methods) m x → p < (comparedParameters x).length)

include hdecl hlength

/-- The methods on a cycle agree in the parameters before the place. -/
theorem take_eq (hx : OnCycle (Edge H.toReflection methods) m x)
    (hy : OnCycle (Edge H.toReflection methods) m y) :
    (comparedParameters x).take p = (comparedParameters y).take p := by
  have hbelow : ∀ {x y}, OnCycle (Edge H.toReflection methods) m x →
      OnCycle (Edge H.toReflection methods) m y →
      List.Forall₂ (Below H) ((comparedParameters x).take p) ((comparedParameters y).take p) := by
    intro x y
    refine OnCycle.related (fun x y ↦ List.Forall₂ (Below H) ((comparedParameters x).take p)
      ((comparedParameters y).take p)) (fun x ↦ List.forall₂_same.2 fun c _ ↦ .refl c)
      (fun x y z h h' ↦ forall₂_below_trans h h') fun x y hx hy hxy ↦ ?_
    exact (take_assignable (hdecl x hxy.1) (hdecl y hxy.2.1) hxy.isMoreSpecificThan.1
      (hlength x hx) (hlength y hy)).below
  exact forall₂_below_antisymm (hbelow hx hy) (hbelow hy hx)

theorem move_of_edge (hx : OnCycle (Edge H.toReflection methods) m x)
    (hy : OnCycle (Edge H.toReflection methods) m y) (hxy : Edge H.toReflection methods x y) :
    Move H p x y :=
  move (hdecl x hxy.1) (hdecl y hxy.2.1) hxy.2.2 (hlength x hx) (hlength y hy)
    (take_eq hdecl hlength hx hy)

/-- So nothing rises or falls on a cycle. -/
theorem rises_of_onCycle (hx : OnCycle (Edge H.toReflection methods) m x)
    (hy : OnCycle (Edge H.toReflection methods) m y) :
    Rises H (valueAt H p x) (valueAt H p y) := by
  refine OnCycle.related (fun x y ↦ Rises H (valueAt H p x) (valueAt H p y))
    (fun x ↦ Rises.refl _) (fun x y z h h' ↦ h.trans h') (fun x y hx hy hxy ↦ ?_) hx hy
  cases move_of_edge hdecl hlength hx hy hxy with
  | climb _ _ _ hrises _ => exact hrises
  | other _ hrises _ => exact hrises

/-- A step from a varargs parameter at the place to a single one is between twins. -/
theorem twins_of_edge (hx : OnCycle (Edge H.toReflection methods) m x)
    (hy : OnCycle (Edge H.toReflection methods) m y) (hxy : Edge H.toReflection methods x y)
    (hxv : VarArgsAt p x) (hyv : y.isVarArgs = false) :
    (comparedParameters y).length = p + 1 ∧ Twins H (valueAt H p x) (valueAt H p y) := by
  cases move_of_edge hdecl hlength hx hy hxy with
  | climb _ _ hlast _ htwins => exact ⟨hlast, htwins (rises_of_onCycle hdecl hlength hy hx)⟩
  | other hnot _ _ => exact absurd ⟨hxv, hyv⟩ hnot

/-- Every other step among arrays over the classes above all arrays keeps the parameter. -/
theorem valueAt_eq_of_edge (hx : OnCycle (Edge H.toReflection methods) m x)
    (hy : OnCycle (Edge H.toReflection methods) m y) (hxy : Edge H.toReflection methods x y)
    (htop : H.Top (valueAt H p x)) (hne : valueAt H p y ≠ valueAt H p x) :
    VarArgsAt p x ∧ y.isVarArgs = false := by
  cases move_of_edge hdecl hlength hx hy hxy with
  | climb hxv hyv _ _ _ => exact ⟨hxv, hyv⟩
  | other _ _ heq => exact absurd (heq htop (rises_of_onCycle hdecl hlength hy hx)) hne

end Place

omit [DecidableEq Cls] in
theorem eq_concat_of_length {A : List Cls} (hA : A.length = p + 1) (x : Cls) :
    A = A.take p ++ [A[p]?.getD x] := by
  have hp : p < A.length := by omega
  rw [List.getElem?_eq_getElem hp, Option.getD_some, List.take_append_getElem hp, ← hA,
    List.take_length]

/-- A cycle is a tangle. -/
theorem tangled_of_cycle (hdecl : ∀ m ∈ methods, Declarable H m)
    (hm : TransGen (Edge H.toReflection methods) m m) : Tangled H methods := by
  obtain ⟨p, ⟨v, hv, hvat⟩, hmin⟩ := exists_place hdecl hm
  have hlength : ∀ x, OnCycle (Edge H.toReflection methods) m x →
      p < (comparedParameters x).length := by
    intro x hx
    refine OnCycle.spread (p := fun w ↦ p < (comparedParameters w).length)
      (fun y z _ hz hyz ↦ lt_length_of_edge hdecl hyz (hmin z hz)) hv hx ?_
    exact Nat.lt_of_lt_of_eq (Nat.lt_succ_self p) hvat.2.symm
  -- Somewhere the cycle leaves the varargs parameters at the place,
  have hfixed : ∃ z, OnCycle (Edge H.toReflection methods) m z ∧ ¬VarArgsAt p z := by
    obtain ⟨z, hz, hne⟩ := exists_kinds hdecl hm
    by_contra hnone
    have hat : ∀ w, OnCycle (Edge H.toReflection methods) m w → VarArgsAt p w :=
      fun w hw ↦ Classical.byContradiction fun hnot ↦ hnone ⟨w, hw, hnot⟩
    exact hne ((hat z hz).1.trans (hat m (OnCycle.self hm)).1.symm)
  obtain ⟨z, hz, hznot⟩ := hfixed
  obtain ⟨x, y, hx, hy, hxy, hxat, hynot⟩ := OnCycle.exists_exit hv hz hvat hznot
  have hyv : y.isVarArgs = false :=
    Bool.eq_false_iff.2 fun hyv ↦ hynot (varArgsAt_of_edge hxy hxat hyv)
  obtain ⟨hylast, htwins⟩ := twins_of_edge hdecl hlength hx hy hxy hxat hyv
  have hne : valueAt H p x ≠ valueAt H p y := fun heq ↦ htwins.elem_ne (congrArg H.elem heq)
  -- and where it comes back to the first twin, it does so in the same way.
  obtain ⟨x', y', hx', hy', hxy', hxval, hyval⟩ :=
    OnCycle.exists_exit (p := fun w ↦ valueAt H p w = valueAt H p y) hy hx rfl hne
  have htop : H.Top (valueAt H p x') := hxval ▸ htwins.symm.top
  obtain ⟨hxat', hyv'⟩ :=
    valueAt_eq_of_edge hdecl hlength hx' hy' hxy' htop (fun heq ↦ hyval (heq.trans hxval))
  obtain ⟨hylast', htwins'⟩ := twins_of_edge hdecl hlength hx' hy' hxy' hxat' hyv'
  rw [hxval] at htwins'
  have hyval' : valueAt H p y' = valueAt H p x := htwins.unique htwins'
  have hprior : ∀ {w}, OnCycle (Edge H.toReflection methods) m w →
      (comparedParameters w).take p = (comparedParameters x).take p :=
    fun hw ↦ take_eq hdecl hlength hw hx
  have hsingle : ∀ {w}, OnCycle (Edge H.toReflection methods) m w → w.isVarArgs = false →
      (comparedParameters w).length = p + 1 →
      HasSingle methods ((comparedParameters x).take p) (valueAt H p w) := by
    intro w hw hwv hwlast
    refine ⟨w, OnCycle.mem hw, hwv, ?_⟩
    rw [valueAt_of_not (not_varArgsAt_of_fixed hwv), ← hprior hw]
    exact eq_concat_of_length hwlast _
  have hvarArgs : ∀ {w}, OnCycle (Edge H.toReflection methods) m w → VarArgsAt p w →
      HasVarArgs H.toReflection methods ((comparedParameters x).take p) (valueAt H p w) := by
    intro w hw hwat
    refine ⟨w, OnCycle.mem hw, hwat.1, _, ?_, (if_pos hwat).symm⟩
    rw [← hprior hw]
    exact eq_concat_of_length hwat.2 _
  exact ⟨_, _, _, htwins, hyval' ▸ hsingle hy' hyv' hylast', hvarArgs hx hxat,
    hsingle hy hyv hylast, hxval ▸ hvarArgs hx' hxat'⟩

/-- A single parameter is strictly more specific than the same as a varargs parameter. -/
theorem single_edge_varArgs (hdecl : ∀ m ∈ methods, Declarable H m) {P : List Cls} {c arr : Cls}
    (hx : x ∈ methods) (hxv : x.isVarArgs = false) (hxP : comparedParameters x = P ++ [c])
    (hy : y ∈ methods) (hyv : y.isVarArgs = true) (hyP : comparedParameters y = P ++ [arr])
    (harr : H.getComponentType arr = c) : Edge H.toReflection methods x y := by
  have hvoid := (hdecl x hx).ne_void
  rw [hxP] at hvoid
  have hself : Assignable H.toReflection P P :=
    assignable_self fun e he ↦ hvoid e (List.mem_append_left _ he)
  have hc : isAssignableTo H.toReflection c c = true :=
    isAssignableTo_self (hvoid c (List.mem_append_right _ List.mem_cons_self))
  refine ⟨hx, hy, ?_⟩
  rw [isStrictlyMoreSpecificThan, Bool.and_eq_true, Bool.not_eq_true', ← Bool.not_eq_true]
  constructor
  · refine (fixed_varArgs_iff hxv hyv hyP).2 ⟨P, [c], hxP, hself, .inl fun e he ↦ ?_⟩
    rwa [List.mem_singleton.1 he, harr]
  · intro hspec
    obtain ⟨Q, b, hQ, -, -, hdiff⟩ := (varArgs_fixed_iff hyv hxv hyP).1 hspec
    obtain ⟨-, rfl⟩ := List.append_singleton_inj.1 (hxP.symm.trans hQ)
    rw [harr] at hdiff
    exact hdiff ⟨hc, hc⟩

/-- A varargs parameter is strictly more specific than its single twin. -/
theorem varArgs_edge_single (hdecl : ∀ m ∈ methods, Declarable H m) {P : List Cls} {c d arr : Cls}
    (htwins : Twins H c d) (hx : x ∈ methods) (hxv : x.isVarArgs = true)
    (hxP : comparedParameters x = P ++ [arr]) (harr : H.getComponentType arr = c)
    (hy : y ∈ methods) (hyv : y.isVarArgs = false) (hyP : comparedParameters y = P ++ [d]) :
    Edge H.toReflection methods x y := by
  have hvoid := (hdecl x hx).ne_void
  rw [hxP] at hvoid
  have hself : Assignable H.toReflection P P :=
    assignable_self fun e he ↦ hvoid e (List.mem_append_left _ he)
  have hisArray : H.isArray arr = true := by
    obtain ⟨Q, arr', hQ, harr'⟩ := (hdecl x hx).exists_varArgs hxv
    obtain ⟨-, rfl⟩ := List.append_singleton_inj.1 (hxP.symm.trans hQ)
    exact harr'
  obtain ⟨hdarr, harrd⟩ := htwins.isAssignableFrom_array hisArray harr
  refine ⟨hx, hy, ?_⟩
  rw [isStrictlyMoreSpecificThan, Bool.and_eq_true, Bool.not_eq_true', ← Bool.not_eq_true]
  constructor
  · refine (varArgs_fixed_iff hxv hyv hxP).2 ⟨P, d, hyP, hself, .inl ?_,
      fun h ↦ htwins.not_isAssignableFrom ?_⟩
    · rwa [isAssignableTo_reference (H.isPrimitive_array hisArray)]
    · rw [← isAssignableTo_reference htwins.top.isPrimitive, ← harr]
      exact h.1
  · intro hspec
    obtain ⟨Q, rest, hQ, hPQ, hrest⟩ := (fixed_varArgs_iff hyv hxv hxP).1 hspec
    have hlength := congrArg List.length (hyP.symm.trans hQ)
    rw [List.length_append, List.length_append, hPQ.length_eq] at hlength
    obtain ⟨-, rfl⟩ := List.append_inj (hyP.symm.trans hQ) hPQ.length_eq.symm
    rcases hrest with hall | ⟨b, heq, hb⟩
    · have hd := hall d List.mem_cons_self
      rw [isAssignableTo_reference htwins.symm.top.isPrimitive, harr] at hd
      exact htwins.symm.not_isAssignableFrom hd
    · obtain ⟨rfl, -⟩ := List.cons.inj heq
      rw [isAssignableTo_reference htwins.symm.top.isPrimitive] at hb
      exact hdarr hb

/-- A tangle has a cycle. -/
theorem exists_cycle_of_tangled (hdecl : ∀ m ∈ methods, Declarable H m) (h : Tangled H methods) :
    ∃ m, TransGen (Edge H.toReflection methods) m m := by
  obtain ⟨P, c, d, htwins, ⟨f, hf, hfv, hfP⟩, ⟨v, hv, hvv, arr, hvP, harr⟩,
    ⟨f', hf', hfv', hfP'⟩, v', hv', hvv', arr', hvP', harr'⟩ := h
  refine ⟨f, ?_⟩
  have hfv := single_edge_varArgs hdecl hf hfv hfP hv hvv hvP harr
  have hvf' := varArgs_edge_single hdecl htwins hv hvv hvP harr hf' hfv' hfP'
  have hfv'' := single_edge_varArgs hdecl hf' hfv' hfP' hv' hvv' hvP' harr'
  have hvf := varArgs_edge_single hdecl htwins.symm hv' hvv' hvP' harr' hf ‹_› hfP
  exact (((TransGen.single hfv).tail hvf').tail hfv'').tail hvf

end Cycle

/-! ### The queue -/

section Queue

variable {R : Reflection Cls} {methods : List (Executable Cls)}

/-- One turn of the loop of `sortMethods`. -/
def turn : List (MethodResolution Cls) × List (MethodResolution Cls) →
    (List (MethodResolution Cls) × List (MethodResolution Cls)) ⊕ List (MethodResolution Cls)
  | ([], out) => .inr out
  | (front :: unsorted, out) =>
    if isCovered out front then .inl (unsorted, out ++ [front])
    else .inl (unsorted ++ [front], out)

theorem iterate_turn (fuel : ℕ) : ∀ unsorted out : List (MethodResolution Cls),
    iterate turn (fuel + 1) (unsorted, out) = sortLoop fuel unsorted out := by
  induction fuel with
  | zero =>
    intro unsorted out
    cases unsorted with
    | nil => rfl
    | cons front unsorted =>
      rw [iterate, turn, sortLoop]
      split_ifs <;> rfl
  | succ fuel ih =>
    intro unsorted out
    cases unsorted with
    | nil => rfl
    | cons front unsorted =>
      rw [iterate, turn, sortLoop]
      split_ifs
      · exact ih _ _
      · exact ih _ _

theorem ends_iff {sorted : List (MethodResolution Cls)} :
    Ends turn (resolutions R methods, []) sorted ↔
      ∃ fuel, sortMethods R fuel methods = some sorted := by
  constructor
  · rintro ⟨fuel, hfuel⟩
    have hmore := iterate_mono (Nat.le_succ fuel) hfuel
    exact ⟨fuel, by rwa [sortMethods, ← iterate_turn]⟩
  · rintro ⟨fuel, hfuel⟩
    exact ⟨fuel + 1, by rwa [iterate_turn]⟩

/-- What holds in each turn: the overloads are still the same. -/
def Sorting (R : Reflection Cls) (methods : List (Executable Cls))
    (s : List (MethodResolution Cls) × List (MethodResolution Cls)) : Prop :=
  (s.2 ++ s.1).Perm (resolutions R methods)

theorem Sorting.turn {s s' : List (MethodResolution Cls) × List (MethodResolution Cls)}
    (h : Sorting R methods s) (hs : turn s = .inl s') :
    Sorting R methods s' ∧ (s'.1.length < s.1.length ∨
      ∃ front unsorted, s.1 = front :: unsorted ∧ s'.1 = unsorted ++ [front] ∧ s'.2 = s.2 ∧
        isCovered s.2 front = false) := by
  obtain ⟨_ | ⟨front, unsorted⟩, out⟩ := s
  · cases hs
  · rw [MethodResolution.turn] at hs
    split_ifs at hs with hcovered
    · obtain rfl := Sum.inl.inj hs
      refine ⟨?_, .inl (Nat.lt_succ_self _)⟩
      rw [Sorting, List.append_assoc]
      exact h
    · obtain rfl := Sum.inl.inj hs
      refine ⟨?_, .inr ⟨front, unsorted, rfl, rfl, rfl, Bool.eq_false_iff.2 hcovered⟩⟩
      exact ((List.perm_append_singleton front unsorted).append_left out).trans h

theorem Sorting.executables {s : List (MethodResolution Cls) × List (MethodResolution Cls)}
    (h : Sorting R methods s) : ((s.2 ++ s.1).map (·.executable)).Perm methods := by
  have hmap := h.map (·.executable)
  rwa [map_executable_resolutions] at hmap

/-- An overload is covered if nothing that it is strictly more specific than waits. -/
theorem Sorting.isCovered {s : List (MethodResolution Cls) × List (MethodResolution Cls)}
    (h : Sorting R methods s) {ov : MethodResolution Cls} (hov : ov ∈ s.1)
    (hfirst : ∀ ov' ∈ s.1, isStrictlyMoreSpecificThan R ov.executable ov'.executable = false) :
    isCovered s.2 ov = true := by
  have hmem : ov ∈ resolutions R methods := h.mem_iff.1 (List.mem_append_right _ hov)
  obtain ⟨m, -, rfl⟩ := List.mem_map.1 hmem
  rw [isCovered_iff, List.subperm_ext_iff]
  intro child hchild
  obtain ⟨-, hspec⟩ := List.mem_filter.1 hchild
  have hwaits : (s.1.map (·.executable)).count child = 0 := by
    rw [List.count_eq_zero]
    intro hmem
    obtain ⟨ov', hov', rfl⟩ := List.mem_map.1 hmem
    exact Bool.noConfusion (hspec.symm.trans (hfirst ov' hov'))
  have hcount := h.executables.count_eq child
  rw [List.map_append, List.count_append, hwaits, Nat.add_zero] at hcount
  rw [hcount, List.count_filter hspec]

/-- Without cycles, one of the overloads that wait is covered. -/
theorem Sorting.exists_covered {s : List (MethodResolution Cls) × List (MethodResolution Cls)}
    (h : Sorting R methods s) (hacyclic : ∀ m, ¬TransGen (Edge R methods) m m) (hs : s.1 ≠ []) :
    ∃ ov ∈ s.1, MethodResolution.isCovered s.2 ov = true := by
  have hmem : ∀ ov ∈ s.1, ov.executable ∈ methods := fun ov hov ↦
    h.executables.mem_iff.1 (List.mem_map_of_mem (List.mem_append_right _ hov))
  have hswap : ∀ m, ¬TransGen (Function.swap (Edge R methods)) m m :=
    fun m hm ↦ hacyclic m (transGen_swap.1 hm)
  have hne : s.1.map (·.executable) ≠ [] := fun hnil ↦ hs (List.map_eq_nil_iff.1 hnil)
  obtain ⟨m, hm, hfirst⟩ := exists_first hswap hne
  obtain ⟨ov, hov, rfl⟩ := List.mem_map.1 hm
  refine ⟨ov, hov, h.isCovered hov fun ov' hov' ↦ Bool.eq_false_iff.2 fun hspec ↦ ?_⟩
  exact hfirst ov'.executable (List.mem_map_of_mem hov') ⟨hmem ov hov, hmem ov' hov', hspec⟩

/-- The sort ends exactly if the strict relation has no cycle among the methods. -/
theorem sorts_iff_acyclic :
    (∃ fuel sorted, sortMethods R fuel methods = some sorted) ↔
      ∀ m, ¬TransGen (Edge R methods) m m := by
  constructor
  · rintro ⟨fuel, sorted, hsort⟩ m hm
    -- Along the relation the places in the sorted list go down.
    have hedge : ∀ {x y}, Edge R methods x y →
        (sorted.map (·.executable)).idxOf y < (sorted.map (·.executable)).idxOf x := by
      intro x y hxy
      obtain ⟨hx, hy, hstrict⟩ := hxy
      have hperm := sortMethods_executables hsort
      have hx' := List.idxOf_lt_length_iff.2 (hperm.mem_iff.2 hx)
      have hy' := List.idxOf_lt_length_iff.2 (hperm.mem_iff.2 hy)
      rcases Nat.lt_trichotomy ((sorted.map (·.executable)).idxOf y)
        ((sorted.map (·.executable)).idxOf x) with hlt | heq | hgt
      · exact hlt
      · obtain rfl := List.idxOf_inj (hperm.mem_iff.2 hy) |>.1 heq
        rw [isStrictlyMoreSpecificThan_self] at hstrict
        cases hstrict
      · have hpair := List.pairwise_iff_getElem.1 (pairwise_of_sorted hsort) _ _ hx' hy' hgt
        rw [List.getElem_idxOf, List.getElem_idxOf] at hpair
        exact Bool.noConfusion (hstrict.symm.trans hpair)
    have hpath : ∀ {x y}, TransGen (Edge R methods) x y →
        (sorted.map (·.executable)).idxOf y < (sorted.map (·.executable)).idxOf x := by
      intro x y hxy
      induction hxy with
      | single h => exact hedge h
      | tail _ h ih => exact (hedge h).trans ih
    exact absurd (hpath hm) (Nat.lt_irrefl _)
  · intro hacyclic
    suffices hends : ∃ sorted, Ends turn (resolutions R methods, []) sorted by
      obtain ⟨sorted, hsorted⟩ := hends
      obtain ⟨fuel, hfuel⟩ := ends_iff.1 hsorted
      exact ⟨fuel, sorted, hfuel⟩
    refine exists_ends_of_turning (Sorting R methods) (fun s ↦ MethodResolution.isCovered s.2)
      (fun s s' hinv hs ↦ ?_) (List.Perm.refl _)
    obtain ⟨hinv', hlt | ⟨front, unsorted, heq, heq', hout, hfront⟩⟩ := hinv.turn hs
    · exact ⟨hinv', .inl hlt⟩
    · refine ⟨hinv', .inr ⟨front, unsorted, heq, heq', hfront, ?_, fun ov _ h ↦ by rwa [hout]⟩⟩
      obtain ⟨ov, hov, hcovered⟩ := hinv.exists_covered hacyclic (heq ▸ List.cons_ne_nil _ _)
      refine ⟨ov, (List.mem_cons.1 (heq ▸ hov)).resolve_left ?_, hcovered⟩
      rintro rfl
      exact Bool.noConfusion (hfront.symm.trans hcovered)

end Queue

/-- The sort ends exactly if the methods are not tangled, which is when the strict relation has no
cycle among them. -/
theorem sorts_iff {Cls : Type} [DecidableEq Cls] (H : JavaHierarchy Cls)
    (methods : List (Executable Cls)) (hdecl : ∀ m ∈ methods, Declarable H m) :
    ((∃ fuel sorted, sortMethods H.toReflection fuel methods = some sorted) ↔
        ¬Tangled H methods) ∧
      ((∀ m, ¬TransGen (Edge H.toReflection methods) m m) ↔ ¬Tangled H methods) := by
  have hcycle : (∀ m, ¬TransGen (Edge H.toReflection methods) m m) ↔ ¬Tangled H methods := by
    constructor
    · intro hacyclic htangled
      obtain ⟨m, hm⟩ := exists_cycle_of_tangled hdecl htangled
      exact hacyclic m hm
    · exact fun hnot m hm ↦ hnot (tangled_of_cycle hdecl hm)
  exact ⟨sorts_iff_acyclic.trans hcycle, hcycle⟩

end MethodResolution

/-! ### Four overloads for what can be copied or stored -/

/-- `class Store { static void put(Cloneable c), put(Serializable s), put(Cloneable... cs),
put(Serializable... ss) }`, with the classes that it needs. -/
inductive StoreClass where
  | void
  | object
  | cloneable
  | serializable
  | store
  | other
  | primitive (type : PrimitiveType)
  | boxed (type : PrimitiveType)
  | array (component : StoreClass)
  deriving DecidableEq

namespace StoreClass

/-- `isPrimitive` -/
def isPrimitive : StoreClass → Bool
  | primitive _ | void => true
  | _ => false

/-- `isArray` -/
def isArray : StoreClass → Bool
  | array _ => true
  | _ => false

/-- `getComponentType` -/
def getComponentType : StoreClass → StoreClass
  | array c => c
  | c => c

/-- The number of dimensions. -/
def dimension : StoreClass → ℕ
  | array c => dimension c + 1
  | _ => 0

/-- `isAssignableFrom` -/
def isAssignableFrom : StoreClass → StoreClass → Bool
  | array c, array d => isAssignableFrom c d
  | c, array _ => c = object || c = cloneable || c = serializable
  | c, boxed p => c = boxed p || c = object || c = serializable
  | c, primitive p => c = primitive p
  | c, void => c = void
  | c, d => c = d || c = object

attribute [local simp] isAssignableFrom

theorem isAssignableFrom_array {c d : StoreClass} : isAssignableFrom c (array d) = true ↔
    (c = object ∨ c = cloneable ∨ c = serializable) ∨
      isArray c = true ∧ isAssignableFrom (getComponentType c) d = true := by
  cases c <;> simp [isArray, getComponentType]

theorem isAssignableFrom_boxed {c : StoreClass} {p : PrimitiveType} :
    isAssignableFrom c (boxed p) = true ↔ c = boxed p ∨ c = object ∨ c = serializable := by
  cases c <;> simp

theorem isAssignableFrom_other {c d : StoreClass} (hd : isArray d = false)
    (hboxed : ∀ p, d ≠ boxed p) :
    isAssignableFrom c d = true ↔ c = d ∨ c = object ∧ isPrimitive d = false := by
  cases d <;> cases c <;> simp_all [isPrimitive, isArray]

theorem isAssignableFrom_refl (c : StoreClass) : isAssignableFrom c c = true := by
  induction c with
  | array c ih => exact ih
  | _ => simp

/-- What the classes above all arrays are assignable to. -/
theorem eq_of_isAssignableFrom {c d : StoreClass}
    (hd : d = object ∨ d = cloneable ∨ d = serializable)
    (h : isAssignableFrom c d = true) : c = object ∨ c = d := by
  rcases hd with rfl | rfl | rfl
  · simpa using h
  · simpa [or_comm] using h
  · simpa [or_comm] using h

theorem isAssignableFrom_trans {c d e : StoreClass} (h : isAssignableFrom c d = true)
    (h' : isAssignableFrom d e = true) : isAssignableFrom c e = true := by
  induction e generalizing c d with
  | array e ih =>
    rcases isAssignableFrom_array.1 h' with habove | ⟨harray, h'⟩
    · refine isAssignableFrom_array.2 (.inl ?_)
      rcases eq_of_isAssignableFrom habove h with rfl | rfl
      · exact .inl rfl
      · exact habove
    · cases d with
      | array d =>
        rcases isAssignableFrom_array.1 h with habove | ⟨harray', h⟩
        · exact isAssignableFrom_array.2 (.inl habove)
        · exact isAssignableFrom_array.2 (.inr ⟨harray', ih h h'⟩)
      | _ => cases harray
  | boxed p =>
    rcases isAssignableFrom_boxed.1 h' with rfl | rfl | rfl
    · exact h
    · obtain rfl : c = object := (eq_of_isAssignableFrom (.inl rfl) h).elim id id
      exact h'
    · rcases eq_of_isAssignableFrom (.inr (.inr rfl)) h with rfl | rfl
      · rfl
      · exact h'
  | _ =>
    rcases (isAssignableFrom_other (by rfl) (by simp)).1 h' with rfl | ⟨rfl, hprimitive⟩
    · exact h
    · obtain rfl : c = object := (eq_of_isAssignableFrom (.inl rfl) h).elim id id
      exact h'

theorem isAssignableFrom_antisymm {c d : StoreClass} (h : isAssignableFrom c d = true)
    (h' : isAssignableFrom d c = true) : c = d := by
  induction d generalizing c with
  | array d ih =>
    rcases isAssignableFrom_array.1 h with (rfl | rfl | rfl) | ⟨harray, h⟩
    · simp at h'
    · simp at h'
    · simp at h'
    · cases c with
      | array c => exact congrArg array (ih h h')
      | _ => cases harray
  | boxed p =>
    rcases isAssignableFrom_boxed.1 h with rfl | rfl | rfl
    · rfl
    · simp at h'
    · simp at h'
  | _ =>
    rcases (isAssignableFrom_other (by rfl) (by simp)).1 h with rfl | ⟨rfl, hprimitive⟩
    · rfl
    · simp_all

/-- An overload of `Store.put`. -/
def put (parameterType : StoreClass) (isVarArgs : Bool) : Executable StoreClass where
  name := "put"
  declaringClass := store
  parameterTypes := [parameterType]
  returnType := void
  kind := .staticMethod
  isPublic := true
  isVarArgs := isVarArgs
  parameterTypes_ne_nil _ := List.cons_ne_nil _ _

/-- The methods that `Store` declares. -/
def puts : List (Executable StoreClass) :=
  [put cloneable false, put serializable false, put (array cloneable) true,
    put (array serializable) true]

/-- The methods of a class; those of `Object` are left out. -/
def methods : StoreClass → List (Executable StoreClass)
  | store => puts
  | _ => []

/-- The virtual machine that has these classes. -/
def hierarchy : JavaHierarchy StoreClass where
  isPrimitive := isPrimitive
  isArray := isArray
  isSynthetic _ := false
  isAnonymousClass _ := false
  getSimpleName c :=
    match c with
    | store => "Store"
    | object => "Object"
    | _ => "Other"
  getComponentType := getComponentType
  isAssignableFrom := isAssignableFrom
  getSuperclass c :=
    match c with
    | void | object | cloneable | serializable | primitive _ => none
    | _ => some object
  getInterfaces c :=
    match c with
    | array _ => [cloneable, serializable]
    | boxed _ => [serializable]
    | _ => []
  getMethods c := some (methods c)
  getDeclaredMethods c := some (methods c)
  getDeclaredConstructors _ := some []
  getFields _ := some []
  getDeclaredFields _ := some []
  getMethod c name parameterTypes :=
    (methods c).find? fun m ↦ m.name = name && m.parameterTypes = parameterTypes
  toString m := m.name
  TYPE := primitive
  box := boxed
  voidTYPE := void
  literal name := if name = "Object" then object else other
  getMethods_nodup {c ms} h := by
    obtain rfl := Option.some.inj h
    cases c <;> first | exact List.nodup_nil | decide
  getMethods_kind {c ms} h := by
    obtain rfl := Option.some.inj h
    cases c <;> simp [methods, puts, put]
  getDeclaredConstructors_nodup h := Option.some.inj h ▸ List.nodup_nil
  getDeclaredConstructors_kind h _ hm := absurd (Option.some.inj h ▸ hm) List.not_mem_nil
  getDeclaredConstructors_declaringClass h _ hm := absurd (Option.some.inj h ▸ hm) List.not_mem_nil
  object := object
  cloneable := cloneable
  serializable := serializable
  dimension := dimension
  isPrimitive_TYPE _ := rfl
  TYPE_injective h := primitive.inj h
  exists_TYPE {c} h hvoid := by
    cases c with
    | primitive p => exact ⟨p, rfl⟩
    | void => exact absurd rfl hvoid
    | _ => cases h
  isPrimitive_box _ := rfl
  isArray_box _ := rfl
  isPrimitive_array {c} h := by cases c <;> first | rfl | cases h
  dimension_array {c} h := by cases c <;> first | rfl | cases h
  dimension_other {c} h := by cases c <;> first | rfl | cases h
  getComponentType_injective {c d} hc hd h := by
    cases c <;> cases d <;> simp_all [isArray, getComponentType]
  isAssignableFrom_refl := isAssignableFrom_refl
  isAssignableFrom_trans := isAssignableFrom_trans
  isAssignableFrom_antisymm := isAssignableFrom_antisymm
  isAssignableFrom_primitive {c d} hprimitive h := by
    cases c <;> cases d <;> simp_all [isPrimitive]
  isAssignableFrom_array {c d} hd := by
    cases d with
    | array d => exact isAssignableFrom_array
    | _ => cases hd
  isAssignableFrom_other {c d} hd h := by
    cases c <;> cases d <;> simp_all [isArray]
  isAssignableFrom_object h := by simpa using h
  isAssignableFrom_cloneable := by simp
  isAssignableFrom_serializable := by simp
  isArray_object := rfl
  isArray_cloneable := rfl
  isArray_serializable := rfl
  object_ne_cloneable := nofun
  object_ne_serializable := nofun
  cloneable_ne_serializable := nofun

open MethodResolution Foundation Relation

theorem puts_declarable : ∀ m ∈ puts, Declarable hierarchy m := by
  have hput : ∀ c isVarArgs, c ≠ void → (isVarArgs = true → isArray c = true) →
      Declarable hierarchy (put c isVarArgs) := by
    intro c isVarArgs hvoid harray
    refine ⟨nofun, fun d hd ↦ ?_, fun hvarArgs d hd ↦ ?_⟩
    · rwa [List.mem_singleton.1 hd]
    · obtain rfl := Option.some.inj hd
      exact harray hvarArgs
  intro m hm
  rcases List.mem_cons.1 hm with rfl | hm
  · exact hput _ _ nofun nofun
  · rcases List.mem_cons.1 hm with rfl | hm
    · exact hput _ _ nofun nofun
    · rcases List.mem_cons.1 hm with rfl | hm
      · exact hput _ _ nofun fun _ ↦ rfl
      · obtain rfl := List.mem_singleton.1 hm
        exact hput _ _ nofun fun _ ↦ rfl

/-- The overloads of `Store.put` are never sorted: `put(Cloneable...)` waits for
`put(Serializable)`, that for `put(Serializable...)`, that for `put(Cloneable)`, and that for
`put(Cloneable...)`. -/
theorem puts_never_sorted : (∀ m ∈ puts, Declarable hierarchy m) ∧
    ¬∃ fuel sorted, sortMethods hierarchy.toReflection fuel puts = some sorted := by
  refine ⟨puts_declarable, fun hsorts ↦ ?_⟩
  have h₁ : Edge hierarchy.toReflection puts (put (array cloneable) true)
      (put serializable false) :=
    ⟨by decide, by decide, by decide⟩
  have h₂ : Edge hierarchy.toReflection puts (put serializable false)
      (put (array serializable) true) := ⟨by decide, by decide, by decide⟩
  have h₃ : Edge hierarchy.toReflection puts (put (array serializable) true)
      (put cloneable false) := ⟨by decide, by decide, by decide⟩
  have h₄ : Edge hierarchy.toReflection puts (put cloneable false) (put (array cloneable) true) :=
    ⟨by decide, by decide, by decide⟩
  exact sorts_iff_acyclic.1 hsorts _ ((((TransGen.single h₁).tail h₂).tail h₃).tail h₄)

/-- The two overloads for what can be copied. -/
theorem copies_sorts_iff :
    ((∃ fuel sorted, sortMethods hierarchy.toReflection fuel
        [put cloneable false, put (array cloneable) true] = some sorted) ↔
      ¬Tangled hierarchy [put cloneable false, put (array cloneable) true]) ∧
    ((∀ m, ¬TransGen (Edge hierarchy.toReflection
        [put cloneable false, put (array cloneable) true]) m m) ↔
      ¬Tangled hierarchy [put cloneable false, put (array cloneable) true]) :=
  sorts_iff hierarchy _ fun m hm ↦ puts_declarable m (by
    revert m
    decide)

end StoreClass

end JPype
