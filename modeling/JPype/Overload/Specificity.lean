import JPype.Java.Hierarchy
import JPype.Overload.MethodResolution
import Mathlib.Data.List.Forall2

/-!
# What more specific means

The relation of `MethodResolution` case by case: for executables of the same kind it is parameter by
parameter (`isMoreSpecificThan_of_eq`), a varargs one is compared with one of fixed arity only if
they have as many parameters (`varArgs_fixed_iff`), and one of fixed arity with a varargs one also
if it has more of them, or one less (`fixed_varArgs_iff`).

In a hierarchy, what a class is assignable to lies above it in an order (`Below`), which the
table of conversions extends to the primitive types.
-/

namespace JPype

namespace MethodResolution

variable {Cls : Type} [DecidableEq Cls]

section Cases

variable (R : Reflection Cls)

/-- Parameter by parameter. -/
def Assignable : List Cls → List Cls → Prop :=
  List.Forall₂ fun c d ↦ isAssignableTo R c d = true

variable {R} {m₁ m₂ : Executable Cls} {P Q : List Cls} {arr b : Cls}

omit [DecidableEq Cls] in
theorem Forall₂.concat_iff {α : Type} {r : α → α → Prop} {l l' : List α} {a a' : α} :
    List.Forall₂ r (l ++ [a]) (l' ++ [a']) ↔ List.Forall₂ r l l' ∧ r a a' := by
  rw [← List.forall₂_reverse_iff, List.reverse_append, List.reverse_append, List.reverse_singleton,
    List.reverse_singleton, List.singleton_append, List.singleton_append, List.forall₂_cons,
    List.forall₂_reverse_iff, and_comm]

/-- A comparison that stops with the shorter list. -/
theorem zip_all_iff {rest rest' : List Cls} (h : P.length = Q.length)
    (hnil : rest.zip rest' = []) :
    (((P ++ rest).zip (Q ++ rest')).all fun p ↦ isAssignableTo R p.1 p.2) = true ↔
      Assignable R P Q := by
  rw [List.zip_append h, hnil, List.append_nil, Assignable, List.forall₂_iff_zip, List.all_eq_true]
  exact ⟨fun hall ↦ ⟨h, fun hmem ↦ hall _ hmem⟩, fun hall p hp ↦ hall.2 hp⟩

theorem isMoreSpecificThanList_iff : isMoreSpecificThanList R P Q = true ↔ Assignable R P Q := by
  rw [isMoreSpecificThanList]
  split_ifs with hlength
  · exact iff_of_false id fun h ↦ hlength h.length_eq
  · have hall := zip_all_iff (R := R) (not_not.1 hlength) (List.zip_nil_left (l := ([] : List Cls)))
    rwa [List.append_nil, List.append_nil] at hall

/-- Two executables of the same kind. -/
theorem isMoreSpecificThan_of_eq (h : m₁.isVarArgs = m₂.isVarArgs) :
    isMoreSpecificThan R m₁ m₂ = true ↔
      Assignable R (comparedParameters m₁) (comparedParameters m₂) := by
  rw [isMoreSpecificThan, ← isMoreSpecificThanList_iff]
  split_ifs with h₁ h₂
  · rfl
  · exact absurd (h.symm.trans h₁) h₂
  · exact absurd (h.trans ‹_›) h₁
  · rfl

theorem varArgsAgainstFixed_iff {A B : List Cls} (h : A ≠ []) (hP : A = P ++ [arr]) :
    (varArgsAgainstFixed R A B h).getD (isMoreSpecificThanList R A B) = true ↔
      ∃ Q b, B = Q ++ [b] ∧ Assignable R P Q ∧
        (isAssignableTo R arr b = true ∨ isAssignableTo R (R.getComponentType arr) b = true) ∧
        ¬(isAssignableTo R (R.getComponentType arr) b = true ∧
          isAssignableTo R b (R.getComponentType arr) = true) := by
  subst hP
  have hfalse : B.length ≠ P.length + 1 → ¬∃ Q b, B = Q ++ [b] ∧ Assignable R P Q ∧
      (isAssignableTo R arr b = true ∨ isAssignableTo R (R.getComponentType arr) b = true) ∧
      ¬(isAssignableTo R (R.getComponentType arr) b = true ∧
        isAssignableTo R b (R.getComponentType arr) = true) := by
    rintro hlength ⟨Q, b, rfl, hPQ, -⟩
    rw [List.length_append, List.length_singleton, hPQ.length_eq] at hlength
    exact hlength rfl
  have hlength : (P ++ [arr]).length = P.length + 1 := by
    rw [List.length_append, List.length_singleton]
  rw [varArgsAgainstFixed]
  simp only [hlength, Nat.add_sub_cancel, List.getLast_append_singleton]
  split_ifs with hchop hsame hless
  · exact iff_of_false Bool.false_ne_true (hfalse (by omega))
  · -- As many parameters: the last one is compared as an array and as its component.
    obtain rfl | ⟨Q, b, rfl⟩ := List.eq_nil_or_concat' B
    · exact absurd hsame (Nat.succ_ne_zero _)
    · have hset : (P ++ [arr]).set P.length (R.getComponentType arr) =
          P ++ [R.getComponentType arr] := by
        rw [List.set_append_right _ _ (Nat.le_refl _), Nat.sub_self, List.set_cons_zero]
      simp only [hset, List.getLast_append_singleton, Option.getD_some, Bool.and_eq_true,
        Bool.or_eq_true, Bool.not_eq_true', ← Bool.not_eq_true, isMoreSpecificThanList_iff,
        Assignable, Forall₂.concat_iff]
      constructor
      · rintro ⟨hspec, hnot⟩
        refine ⟨Q, b, rfl, ?_, ?_, hnot⟩
        · exact hspec.elim (·.1) (·.1)
        · exact hspec.imp (·.2) (·.2)
      · rintro ⟨Q', b', heq, hPQ, hspec, hnot⟩
        obtain ⟨rfl, rfl⟩ := List.append_singleton_inj.1 heq
        exact ⟨hspec.imp (⟨hPQ, ·⟩) (⟨hPQ, ·⟩), hnot⟩
  · exact iff_of_false Bool.false_ne_true (hfalse (by omega))
  · rw [Option.getD_none, isMoreSpecificThanList_iff]
    refine iff_of_false (fun hspec ↦ ?_) (hfalse (by omega))
    have := hspec.length_eq
    omega

/-- A varargs executable against one of fixed arity. -/
theorem varArgs_fixed_iff (h₁ : m₁.isVarArgs = true) (h₂ : m₂.isVarArgs = false)
    (hP : comparedParameters m₁ = P ++ [arr]) :
    isMoreSpecificThan R m₁ m₂ = true ↔ ∃ Q b, comparedParameters m₂ = Q ++ [b] ∧
      Assignable R P Q ∧
      (isAssignableTo R arr b = true ∨ isAssignableTo R (R.getComponentType arr) b = true) ∧
      ¬(isAssignableTo R (R.getComponentType arr) b = true ∧
        isAssignableTo R b (R.getComponentType arr) = true) := by
  have h₂' : ¬m₂.isVarArgs = true := Bool.eq_false_iff.1 h₂
  rw [isMoreSpecificThan, dif_pos h₁, if_neg h₂', dif_neg h₂']
  exact varArgsAgainstFixed_iff _ hP

theorem fixedAgainstVarArgs_iff {A B : List Cls} (h : B ≠ []) (hQ : B = Q ++ [arr]) :
    fixedAgainstVarArgs R A B h = true ↔ ∃ P rest, A = P ++ rest ∧ Assignable R P Q ∧
      ((∀ c ∈ rest, isAssignableTo R c (R.getComponentType arr) = true) ∨
        ∃ b, rest = [b] ∧ isAssignableTo R b arr = true) := by
  subst hQ
  have hlength : (Q ++ [arr]).length = Q.length + 1 := by
    rw [List.length_append, List.length_singleton]
  -- The parameters before the varargs one are as many on both sides.
  have hsplit : (∃ P rest, A = P ++ rest ∧ Assignable R P Q ∧
      ((∀ c ∈ rest, isAssignableTo R c (R.getComponentType arr) = true) ∨
        ∃ b, rest = [b] ∧ isAssignableTo R b arr = true)) ↔
      Assignable R (A.take Q.length) Q ∧
        ((∀ c ∈ A.drop Q.length, isAssignableTo R c (R.getComponentType arr) = true) ∨
          ∃ b, A.drop Q.length = [b] ∧ isAssignableTo R b arr = true) := by
    constructor
    · rintro ⟨P, rest, rfl, hPQ, hrest⟩
      rw [← hPQ.length_eq, List.take_left, List.drop_left]
      exact ⟨hPQ, hrest⟩
    · rintro ⟨hPQ, hrest⟩
      exact ⟨_, _, (List.take_append_drop Q.length A).symm, hPQ, hrest⟩
  rw [hsplit, fixedAgainstVarArgs]
  simp only [hlength, Nat.add_sub_cancel, List.getLast_append_singleton, List.take_left]
  split_ifs with hless hchop hsame
  · refine iff_of_false id fun h ↦ ?_
    have hlength := h.1.length_eq
    rw [List.length_take] at hlength
    omega
  · rw [isMoreSpecificThanList_iff, hchop, List.take_left, ← hchop, List.take_length,
      List.drop_length]
    exact ⟨fun hPQ ↦ ⟨hPQ, .inl fun c hc ↦ absurd hc List.not_mem_nil⟩, (·.1)⟩
  · obtain rfl | ⟨P, b, rfl⟩ := List.eq_nil_or_concat' A
    · exact absurd hsame.symm (Nat.succ_ne_zero _)
    · have hP : P.length = Q.length := by
        rw [List.length_append, List.length_singleton] at hsame
        exact Nat.succ.inj hsame
      have hall := zip_all_iff (R := R) hP (List.zip_nil_left (l := [arr]))
      rw [List.append_nil] at hall
      simp only [List.length_append, List.length_singleton, Nat.add_sub_cancel, List.take_left,
        List.getLast_append_singleton, Bool.and_eq_true, Bool.or_eq_true, hall, ← hP,
        List.drop_left, List.mem_singleton, forall_eq, List.cons.injEq, and_true,
        exists_eq_left']
  · have hall := zip_all_iff (R := R) (P := A.take Q.length) (Q := Q)
      (by rw [List.length_take]; omega) (List.zip_nil_right (l := A.drop Q.length))
    rw [List.take_append_drop, List.append_nil] at hall
    have hrest : ¬∃ b, A.drop Q.length = [b] ∧ isAssignableTo R b arr = true := by
      rintro ⟨b, hb, -⟩
      have hdrop := congrArg List.length hb
      rw [List.length_drop, List.length_singleton] at hdrop
      omega
    rw [Bool.and_eq_true, hall, List.all_eq_true, or_iff_left hrest]

/-- An executable of fixed arity against a varargs one. -/
theorem fixed_varArgs_iff (h₁ : m₁.isVarArgs = false) (h₂ : m₂.isVarArgs = true)
    (hQ : comparedParameters m₂ = Q ++ [arr]) :
    isMoreSpecificThan R m₁ m₂ = true ↔ ∃ P rest, comparedParameters m₁ = P ++ rest ∧
      Assignable R P Q ∧ ((∀ c ∈ rest, isAssignableTo R c (R.getComponentType arr) = true) ∨
        ∃ b, rest = [b] ∧ isAssignableTo R b arr = true) := by
  have h₁' : ¬m₁.isVarArgs = true := Bool.eq_false_iff.1 h₁
  rw [isMoreSpecificThan, dif_neg h₁', dif_pos h₂]
  exact fixedAgainstVarArgs_iff _ hQ

end Cases

/-! ### The order of a hierarchy -/

section Hierarchy

variable (H : JavaHierarchy Cls)

/-- The primitive types to which the table converts one. -/
def widenings : PrimitiveType → List PrimitiveType
  | .byte => [.byte, .short, .int, .long, .float, .double]
  | .char => [.char, .short, .int, .long, .float, .double]
  | .short => [.short, .int, .long, .float, .double]
  | .int => [.int, .long, .float, .double]
  | .long => [.long, .float, .double]
  | .float => [.float, .double]
  | .double => [.double]
  | .boolean => [.boolean]

theorem mem_widenings_trans {p q r : PrimitiveType} :
    q ∈ widenings p → r ∈ widenings q → r ∈ widenings p := by
  cases p <;> cases q <;> cases r <;> decide

theorem mem_widenings_antisymm {p q : PrimitiveType} :
    q ∈ widenings p → p ∈ widenings q → p = q := by
  cases p <;> cases q <;> decide

variable {H} {c d e : Cls}

theorem isAssignableTo_reference (hc : H.isPrimitive c = false) :
    isAssignableTo H.toReflection c d = H.isAssignableFrom d c := by
  rw [isAssignableTo, hc]
  rfl

/-- A primitive type is assignable to what it widens to, and to the boxes of that. -/
theorem isAssignableTo_TYPE {p : PrimitiveType} :
    isAssignableTo H.toReflection (H.TYPE p) d = true ↔
      ∃ q ∈ widenings p, d = H.TYPE q ∨ d = H.box q := by
  have hbeq : ∀ q, (H.TYPE p == H.TYPE q) = decide (p = q) := by
    intro q
    rw [Bool.eq_iff_iff, beq_iff_eq, decide_eq_true_iff]
    exact ⟨H.TYPE_injective, congrArg H.TYPE⟩
  have hlookup : (CONVERSION H.toReflection).lookup (H.TYPE p) =
      some ((widenings p).flatMap fun q ↦ [H.TYPE q, H.box q]) := by
    simp only [CONVERSION, List.lookup_cons, List.lookup_nil, hbeq]
    cases p <;> rfl
  rw [isAssignableTo, H.isPrimitive_TYPE, hlookup]
  simp

theorem exists_TYPE_of_isAssignableTo (hc : H.isPrimitive c = true)
    (h : isAssignableTo H.toReflection c d = true) : ∃ p, H.TYPE p = c := by
  rw [isAssignableTo, hc] at h
  by_contra hnone
  have hbeq : ∀ q, (c == H.TYPE q) = false := fun q ↦ beq_false_of_ne fun heq ↦ hnone ⟨q, heq.symm⟩
  simp [CONVERSION, List.lookup_cons, hbeq] at h

theorem isAssignableTo_self (hc : c ≠ H.voidTYPE) : isAssignableTo H.toReflection c c = true := by
  cases hprimitive : H.isPrimitive c with
  | false =>
    rw [isAssignableTo_reference hprimitive]
    exact H.isAssignableFrom_refl c
  | true =>
    obtain ⟨p, rfl⟩ := H.exists_TYPE hprimitive hc
    refine isAssignableTo_TYPE.2 ⟨p, ?_, .inl rfl⟩
    cases p <;> decide

omit [DecidableEq Cls] in
theorem isPrimitive_above (hc : H.isPrimitive c = false) (h : H.isAssignableFrom d c = true) :
    H.isPrimitive d = false := by
  rw [Bool.eq_false_iff]
  intro hd
  rw [← H.isAssignableFrom_primitive (.inl hd) h, hd] at hc
  exact Bool.noConfusion hc

/-- `d` lies above `c`, or is `c`. -/
inductive Below (H : JavaHierarchy Cls) : Cls → Cls → Prop
  | refl (c : Cls) : Below H c c
  | widen {p q : PrimitiveType} : q ∈ widenings p → Below H (H.TYPE p) (H.TYPE q)
  | box {p q : PrimitiveType} {d : Cls} : q ∈ widenings p →
      H.isAssignableFrom d (H.box q) = true → Below H (H.TYPE p) d
  | reference {c d : Cls} : H.isPrimitive c = false → H.isAssignableFrom d c = true → Below H c d

namespace Below

theorem of_isAssignableTo (h : isAssignableTo H.toReflection c d = true) : Below H c d := by
  cases hc : H.isPrimitive c with
  | false =>
    rw [isAssignableTo_reference hc] at h
    exact .reference hc h
  | true =>
    obtain ⟨p, rfl⟩ := exists_TYPE_of_isAssignableTo hc h
    obtain ⟨q, hq, rfl | rfl⟩ := isAssignableTo_TYPE.1 h
    · exact .widen hq
    · exact .box hq (H.isAssignableFrom_refl _)

omit [DecidableEq Cls] in
/-- Above a reference type are reference types. -/
theorem of_reference (hc : H.isPrimitive c = false) (h : Below H c d) :
    H.isAssignableFrom d c = true := by
  cases h with
  | refl => exact H.isAssignableFrom_refl c
  | widen _ => exact absurd (H.isPrimitive_TYPE _) (Bool.eq_false_iff.1 hc)
  | box _ _ => exact absurd (H.isPrimitive_TYPE _) (Bool.eq_false_iff.1 hc)
  | reference _ h => exact h

omit [DecidableEq Cls] in
theorem trans (h : Below H c d) (h' : Below H d e) : Below H c e := by
  cases h with
  | refl => exact h'
  | @widen p q hq =>
    generalize hd : H.TYPE q = d at h'
    cases h' with
    | refl => exact hd ▸ .widen hq
    | widen hr => exact .widen (mem_widenings_trans hq (H.TYPE_injective hd ▸ hr))
    | box hr h => exact .box (mem_widenings_trans hq (H.TYPE_injective hd ▸ hr)) h
    | reference hprimitive _ =>
      exact absurd (H.isPrimitive_TYPE q) (Bool.eq_false_iff.1 (hd ▸ hprimitive))
  | @box p q _ hq h =>
    have hd := isPrimitive_above (H.isPrimitive_box q) h
    exact .box hq (H.isAssignableFrom_trans (h'.of_reference hd) h)
  | reference hc h =>
    exact .reference hc (H.isAssignableFrom_trans (h'.of_reference (isPrimitive_above hc h)) h)

omit [DecidableEq Cls] in
theorem antisymm (h : Below H c d) (h' : Below H d c) : c = d := by
  cases h with
  | refl => rfl
  | @widen p q hq =>
    generalize hc : H.TYPE p = c at h'
    generalize hd : H.TYPE q = d at h'
    cases h' with
    | refl => rfl
    | widen hr =>
      obtain rfl := H.TYPE_injective hc
      obtain rfl := H.TYPE_injective hd
      rw [← hc, ← hd, mem_widenings_antisymm hq hr]
    | @box _ r _ hr h =>
      have hbox := isPrimitive_above (H.isPrimitive_box r) h
      exact absurd (H.isPrimitive_TYPE p) (Bool.eq_false_iff.1 (hc ▸ hbox))
    | reference hprimitive _ =>
      exact absurd (H.isPrimitive_TYPE q) (Bool.eq_false_iff.1 (hd ▸ hprimitive))
  | @box p q _ hq h =>
    have hd := isPrimitive_above (H.isPrimitive_box q) h
    exact (H.isAssignableFrom_primitive (.inl (H.isPrimitive_TYPE p)) (h'.of_reference hd))
  | reference hc h =>
    exact H.isAssignableFrom_antisymm (h'.of_reference (isPrimitive_above hc h)) h

omit [DecidableEq Cls] in
/-- Nothing else than arrays over the classes above all arrays lies above one of them. -/
theorem top (hc : H.Top c) (h : Below H c d) :
    H.Top d ∧ (d = c ∨ H.height d < H.height c) := by
  cases hprimitive : H.isPrimitive c with
  | false => exact hc.of_isAssignableFrom (h.of_reference hprimitive)
  | true => exact absurd hprimitive (Bool.eq_false_iff.1 hc.isPrimitive)

omit [DecidableEq Cls] in
/-- Below them, the order keeps the dimension. -/
theorem of_not_top (hd : ¬H.Top d) (h : Below H c d) :
    ¬H.Top c ∧ H.dimension c = H.dimension d ∧ Below H (H.elem c) (H.elem d) := by
  refine ⟨fun hc ↦ hd (h.top hc).1, ?_⟩
  cases h with
  | refl => exact ⟨rfl, .refl _⟩
  | @widen p q hq =>
    obtain ⟨hdim, helem⟩ := H.scalar_TYPE p
    obtain ⟨hdim', helem'⟩ := H.scalar_TYPE q
    rw [helem, helem']
    exact ⟨hdim.trans hdim'.symm, .widen hq⟩
  | @box p q _ hq h =>
    obtain ⟨hdim, helem⟩ := H.scalar_TYPE p
    obtain ⟨hdim', habove⟩ := JavaHierarchy.of_not_top hd h
    rw [JavaHierarchy.elem_other (H.isArray_box q)] at habove
    rw [helem]
    exact ⟨hdim.trans (hdim'.trans (H.dimension_other (H.isArray_box q))).symm, .box hq habove⟩
  | reference _ h =>
    obtain ⟨hdim, helem⟩ := JavaHierarchy.of_not_top hd h
    refine ⟨hdim.symm, ?_⟩
    cases hprimitive : H.isPrimitive (H.elem c) with
    | false => exact .reference hprimitive helem
    | true =>
      rw [H.isAssignableFrom_primitive (.inr hprimitive) helem]
      exact .refl _

end Below

/-! ### Dimensions apart -/

/-- `d` does not lie below `c`, dimensions apart: the arrays over the classes above all arrays are
above all others, and among each other they go by their height. -/
structure Rises (H : JavaHierarchy Cls) (c d : Cls) : Prop where
  top : H.Top c → H.Top d ∧ H.height d ≤ H.height c
  elem : ¬H.Top d → ¬H.Top c ∧ Below H (H.elem c) (H.elem d)

namespace Rises

omit [DecidableEq Cls] in
theorem refl (c : Cls) : Rises H c c :=
  ⟨fun h ↦ ⟨h, Nat.le_refl _⟩, fun h ↦ ⟨h, .refl _⟩⟩

omit [DecidableEq Cls] in
theorem trans (h : Rises H c d) (h' : Rises H d e) : Rises H c e where
  top hc := by
    obtain ⟨hd, hle⟩ := h.top hc
    obtain ⟨he, hle'⟩ := h'.top hd
    exact ⟨he, Nat.le_trans hle' hle⟩
  elem he := by
    obtain ⟨hd, helem⟩ := h'.elem he
    obtain ⟨hc, helem'⟩ := h.elem hd
    exact ⟨hc, helem'.trans helem⟩

omit [DecidableEq Cls] in
theorem of_below (h : Below H c d) : Rises H c d where
  top hc := by
    obtain ⟨hd, rfl | hlt⟩ := h.top hc
    · exact ⟨hd, Nat.le_refl _⟩
    · exact ⟨hd, Nat.le_of_lt hlt⟩
  elem hd := by
    obtain ⟨hc, -, helem⟩ := h.of_not_top hd
    exact ⟨hc, helem⟩

omit [DecidableEq Cls] in
/-- What lies above and not higher is the same. -/
theorem eq_of_below (h : Below H c d) (h' : Rises H d c) : d = c := by
  by_cases hd : H.Top d
  · obtain ⟨hc, hle⟩ := h'.top hd
    refine (h.top hc).2.resolve_right fun hlt ↦ ?_
    exact absurd hlt (Nat.not_lt.2 hle)
  · obtain ⟨hc, hdim, helem⟩ := h.of_not_top hd
    exact JavaHierarchy.eq_of_elem hdim.symm ((h'.elem hc).2.antisymm helem)

end Rises

end Hierarchy

end MethodResolution

end JPype
