import JPype.Java.Reflection
import Mathlib.Logic.Function.Iterate

/-!
# Class hierarchies

What the Java language specification says of the classes and interfaces of a virtual machine:
assignability orders them, and an array is assignable to `Object`, `Cloneable` and `Serializable`,
and to the arrays with elements to which its own are assignable.

So a class is given by its `dimension` and its innermost element `elem`, and
`isAssignableFrom_iff` is assignability in terms of these. The arrays over the three classes that
are above all arrays are themselves above all arrays of more dimensions; `height` counts them down.
-/

namespace JPype

/-- The classes of a virtual machine, as the language specification orders them. -/
structure JavaHierarchy (Cls : Type) extends Reflection Cls where
  object : Cls
  cloneable : Cls
  serializable : Cls
  /-- The number of dimensions of an array class. -/
  dimension : Cls → ℕ
  isPrimitive_TYPE : ∀ p, isPrimitive (TYPE p) = true
  TYPE_injective : ∀ {p q}, TYPE p = TYPE q → p = q
  exists_TYPE : ∀ {c}, isPrimitive c = true → c ≠ voidTYPE → ∃ p, TYPE p = c
  isPrimitive_box : ∀ p, isPrimitive (box p) = false
  isArray_box : ∀ p, isArray (box p) = false
  isPrimitive_array : ∀ {c}, isArray c = true → isPrimitive c = false
  dimension_array : ∀ {c}, isArray c = true → dimension c = dimension (getComponentType c) + 1
  dimension_other : ∀ {c}, isArray c = false → dimension c = 0
  /-- Arrays of the same components are the same class. -/
  getComponentType_injective : ∀ {c d}, isArray c = true → isArray d = true →
    getComponentType c = getComponentType d → c = d
  isAssignableFrom_refl : ∀ c, isAssignableFrom c c = true
  isAssignableFrom_trans : ∀ {c d e}, isAssignableFrom c d = true → isAssignableFrom d e = true →
    isAssignableFrom c e = true
  isAssignableFrom_antisymm : ∀ {c d}, isAssignableFrom c d = true → isAssignableFrom d c = true →
    c = d
  /-- A primitive type is assignable to itself only, and nothing else to it. -/
  isAssignableFrom_primitive : ∀ {c d}, isPrimitive c = true ∨ isPrimitive d = true →
    isAssignableFrom c d = true → c = d
  isAssignableFrom_array : ∀ {c d}, isArray d = true →
    (isAssignableFrom c d = true ↔ (c = object ∨ c = cloneable ∨ c = serializable) ∨
      isArray c = true ∧ isAssignableFrom (getComponentType c) (getComponentType d) = true)
  isAssignableFrom_other : ∀ {c d}, isArray d = false → isAssignableFrom c d = true →
    isArray c = false
  isAssignableFrom_object : ∀ {c}, isAssignableFrom c object = true → c = object
  isAssignableFrom_cloneable : ∀ {c}, isAssignableFrom c cloneable = true ↔
    c = cloneable ∨ c = object
  isAssignableFrom_serializable : ∀ {c}, isAssignableFrom c serializable = true ↔
    c = serializable ∨ c = object
  isArray_object : isArray object = false
  isArray_cloneable : isArray cloneable = false
  isArray_serializable : isArray serializable = false
  object_ne_cloneable : object ≠ cloneable
  object_ne_serializable : object ≠ serializable
  cloneable_ne_serializable : cloneable ≠ serializable

namespace JavaHierarchy

variable {Cls : Type} (H : JavaHierarchy Cls)

/-- The innermost element of an array class; another class is its own. -/
def elem (c : Cls) : Cls :=
  H.getComponentType^[H.dimension c] c

/-- One of the classes to which every array is assignable. -/
def AboveArrays (c : Cls) : Prop :=
  c = H.object ∨ c = H.cloneable ∨ c = H.serializable

variable {H} {c d : Cls}

theorem elem_array (h : H.isArray c = true) : H.elem c = H.elem (H.getComponentType c) := by
  rw [elem, H.dimension_array h, Function.iterate_succ_apply]
  rfl

theorem elem_other (h : H.isArray c = false) : H.elem c = c := by
  rw [elem, H.dimension_other h, Function.iterate_zero_apply]

theorem AboveArrays.isArray (h : H.AboveArrays c) : H.isArray c = false := by
  rcases h with rfl | rfl | rfl
  · exact H.isArray_object
  · exact H.isArray_cloneable
  · exact H.isArray_serializable

theorem isArray_of_dimension_pos (h : 0 < H.dimension c) : H.isArray c = true := by
  rw [← Bool.not_eq_false]
  intro hother
  rw [H.dimension_other hother] at h
  exact Nat.lt_irrefl 0 h

theorem isArray_of_dimension_eq_zero (h : H.dimension c = 0) : H.isArray c = false := by
  rw [Bool.eq_false_iff]
  intro harray
  rw [H.dimension_array harray] at h
  exact Nat.succ_ne_zero _ h

/-- A class is its dimension and its innermost element. -/
theorem eq_of_elem (hdim : H.dimension c = H.dimension d) (helem : H.elem c = H.elem d) :
    c = d := by
  induction hn : H.dimension c generalizing c d with
  | zero =>
    rwa [elem_other (isArray_of_dimension_eq_zero hn),
      elem_other (isArray_of_dimension_eq_zero (hdim ▸ hn))] at helem
  | succ n ih =>
    have hc : H.isArray c = true := isArray_of_dimension_pos (by omega)
    have hd : H.isArray d = true := isArray_of_dimension_pos (by omega)
    have hc' := H.dimension_array hc
    have hd' := H.dimension_array hd
    rw [elem_array hc, elem_array hd] at helem
    exact H.getComponentType_injective hc hd (ih (by omega) helem (by omega))

/-- `d` is assignable to `c` if it has as many dimensions and its elements are assignable, or if it
has more and the elements of `c` are above all arrays. -/
theorem isAssignableFrom_iff : H.isAssignableFrom c d = true ↔
    (H.dimension c = H.dimension d ∧ H.isAssignableFrom (H.elem c) (H.elem d) = true) ∨
      (H.dimension c < H.dimension d ∧ H.AboveArrays (H.elem c)) := by
  induction hn : H.dimension d generalizing c d with
  | zero =>
    have hd := isArray_of_dimension_eq_zero hn
    constructor
    · intro h
      have hc := H.isAssignableFrom_other hd h
      rw [elem_other hc, elem_other hd]
      exact .inl ⟨H.dimension_other hc, h⟩
    · rintro (⟨hdim, h⟩ | ⟨hlt, -⟩)
      · rwa [elem_other (isArray_of_dimension_eq_zero hdim), elem_other hd] at h
      · exact absurd hlt (Nat.not_lt_zero _)
  | succ n ih =>
    have hd : H.isArray d = true := isArray_of_dimension_pos (by omega)
    have hcomponent : H.dimension (H.getComponentType d) = n := by
      have hdim := H.dimension_array hd
      omega
    rw [H.isAssignableFrom_array hd, elem_array hd]
    cases hc : H.isArray c with
    | false =>
      have helem : H.elem c = c := elem_other hc
      rw [H.dimension_other hc, helem]
      constructor
      · rintro (h | ⟨h, -⟩)
        · exact .inr ⟨Nat.succ_pos n, h⟩
        · exact absurd h Bool.false_ne_true
      · rintro (⟨h, -⟩ | ⟨-, h⟩)
        · exact absurd h (Nat.succ_ne_zero n).symm
        · exact .inl h
    | true =>
      have habove : ¬H.AboveArrays c := fun h ↦ absurd (hc.symm.trans h.isArray) (by simp)
      rw [ih hcomponent, elem_array hc, H.dimension_array hc, Nat.succ_inj, Nat.succ_lt_succ_iff]
      exact ⟨fun h ↦ (h.resolve_left habove).2, fun h ↦ .inr ⟨rfl, h⟩⟩

/-! ### The arrays over the classes above all arrays -/

variable (H) in
/-- An array, of any dimension, over a class above all arrays. -/
def Top (c : Cls) : Prop :=
  H.AboveArrays (H.elem c)

open Classical in
variable (H) in
/-- How far such an array is from the top: `Object` is at 0, `Cloneable` and `Serializable` at 1,
the arrays of `Object` at 2 and so on. -/
noncomputable def height (c : Cls) : ℕ :=
  2 * H.dimension c + if H.elem c = H.object then 0 else 1

theorem height_le (c : Cls) : H.height c ≤ 2 * H.dimension c + 1 := by
  rw [height]
  split_ifs <;> omega

theorem le_height (c : Cls) : 2 * H.dimension c ≤ H.height c := by
  rw [height]
  split_ifs <;> omega

/-- A primitive type is no array. -/
theorem scalar_TYPE (H : JavaHierarchy Cls) (p : PrimitiveType) :
    H.dimension (H.TYPE p) = 0 ∧ H.elem (H.TYPE p) = H.TYPE p := by
  have hother : H.isArray (H.TYPE p) = false := by
    rw [Bool.eq_false_iff]
    intro harray
    exact absurd (H.isPrimitive_TYPE p) (Bool.eq_false_iff.1 (H.isPrimitive_array harray))
  exact ⟨H.dimension_other hother, elem_other hother⟩

theorem AboveArrays.isPrimitive (h : H.AboveArrays c) : H.isPrimitive c = false := by
  -- `Object` is above another class, and `Cloneable` and `Serializable` are below it.
  have hcloneable : H.isAssignableFrom H.object H.cloneable = true :=
    H.isAssignableFrom_cloneable.2 (.inr rfl)
  have hserializable : H.isAssignableFrom H.object H.serializable = true :=
    H.isAssignableFrom_serializable.2 (.inr rfl)
  rw [Bool.eq_false_iff]
  intro hprimitive
  rcases h with rfl | rfl | rfl
  · exact H.object_ne_cloneable (H.isAssignableFrom_primitive (.inl hprimitive) hcloneable)
  · exact H.object_ne_cloneable (H.isAssignableFrom_primitive (.inr hprimitive) hcloneable)
  · exact H.object_ne_serializable (H.isAssignableFrom_primitive (.inr hprimitive) hserializable)

theorem Top.isPrimitive (h : H.Top c) : H.isPrimitive c = false := by
  cases harray : H.isArray c with
  | true => exact H.isPrimitive_array harray
  | false =>
    rw [Top, elem_other harray] at h
    exact h.isPrimitive

/-- What such an array is assignable to is another one, higher up. -/
theorem Top.of_isAssignableFrom (hd : H.Top d) (h : H.isAssignableFrom c d = true) :
    H.Top c ∧ (c = d ∨ H.height c < H.height d) := by
  rcases isAssignableFrom_iff.1 h with ⟨hdim, helem⟩ | ⟨hlt, habove⟩
  · have hcases : H.elem c = H.elem d ∨ H.elem c = H.object ∧ H.elem d ≠ H.object := by
      rcases hd with hd | hd | hd
      · rw [hd] at helem ⊢
        exact .inl (H.isAssignableFrom_object helem)
      · rw [hd] at helem ⊢
        refine (H.isAssignableFrom_cloneable.1 helem).imp_right fun hobject ↦ ⟨hobject, ?_⟩
        exact H.object_ne_cloneable.symm
      · rw [hd] at helem ⊢
        refine (H.isAssignableFrom_serializable.1 helem).imp_right fun hobject ↦ ⟨hobject, ?_⟩
        exact H.object_ne_serializable.symm
    rcases hcases with heq | ⟨hobject, hne⟩
    · refine ⟨?_, .inl (eq_of_elem hdim heq)⟩
      rwa [Top, heq]
    · refine ⟨.inl hobject, .inr ?_⟩
      rw [height, height, if_pos hobject, if_neg hne, hdim]
      omega
  · refine ⟨habove, .inr ?_⟩
    have hle := height_le (H := H) c
    have hle' := le_height (H := H) d
    omega

/-- Below the others, assignability keeps the dimension. -/
theorem of_not_top (hc : ¬H.Top c) (h : H.isAssignableFrom c d = true) :
    H.dimension c = H.dimension d ∧ H.isAssignableFrom (H.elem c) (H.elem d) = true :=
  (isAssignableFrom_iff.1 h).resolve_right fun habove ↦ hc habove.2

end JavaHierarchy

end JPype
