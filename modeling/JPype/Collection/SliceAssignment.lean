import JPype.Collection.List

/-!
# Failed assignments to slices

`jl[start:stop] = v` is two calls of Java: the view `jl[start:stop]` is cleared, and then `v` is
added at `start`. Whatever raises in between, or in the second call, finds the elements gone. The
list is as it was after a failed assignment exactly if nothing is cleared, or nothing can fail any
more (`failsClean_iff`).
-/

open Foundation

namespace JPype

/-- The classes of lists that can be modified, where the documentation of `java.util.List` leaves
open what they do. -/
structure ListImplementation (α E : Type) where
  /-- What `addAll` reads from the list itself with these elements. -/
  itself : List α → Except E (List α)
  /-- What is read from a view of these bounds, after a modification of the list that was not made
  by this view and has left these elements. -/
  staleView : ℕ × ℕ → List α → Except E (List α)

/-- The right-hand side of an assignment to a slice. -/
inductive RightHand (α Py : Type) where
  /-- `None`, which is null. -/
  | none
  /-- A Java collection that does not depend on the list. -/
  | collection (elements : List α)
  /-- A Python sequence or set, or a Java array. -/
  | sequence (items : List Py)
  /-- Anything else that is not converted to `java.util.Collection`, as a string or a number. -/
  | other
  | itself
  /-- A view of the list that has been taken before. -/
  | view (bounds : ℕ × ℕ)

/-- What an assignment raises. -/
inductive AssignmentError (E : Type) where
  | list (e : ListError)
  | raised (e : E)

/-- The argument that `addAll` is called with. -/
inductive CollectionArg (α : Type) where
  | null
  | elements (l : List α)
  | itself
  | view (bounds : ℕ × ℕ)

variable {α Py E : Type}

/-! ### The assignment -/

/-- The conversion to `java.util.Collection`. Of a sequence `Arrays.asList` makes a collection,
which converts each element to `java.lang.Object`. -/
def RightHand.toCollection (conv : Py → Except E α) :
    RightHand α Py → Except (AssignmentError E) (CollectionArg α)
  | none => .ok .null
  | collection elements => .ok (.elements elements)
  | sequence items => ((items.mapM conv).map .elements).mapError .raised
  | other => .error (.list .typeError)
  | itself => .ok .itself
  | view bounds => .ok (.view bounds)

namespace ListImplementation

variable (J : ListImplementation α E)

/-- `toArray` of the argument of `addAll`, where the list has the elements `xs`. -/
def toArray (xs : List α) : CollectionArg α → Except (AssignmentError E) (List α)
  | .null => .error (.list .nullPointer)
  | .elements l => .ok l
  | .itself => (J.itself xs).mapError .raised
  | .view bounds => (J.staleView bounds xs).mapError .raised

/-- `subList(fromIndex, toIndex)`: the bounds of the view. -/
def subList (xs : List α) (fromIndex toIndex : ℤ) : Except (AssignmentError E) (ℕ × ℕ) :=
  if fromIndex < 0 ∨ xs.length < toIndex then .error (.list .indexOutOfBounds)
  else if toIndex < fromIndex then .error (.list .illegalArgument)
  else .ok (fromIndex.toNat, toIndex.toNat)

/-- `clear` of a view. -/
def clear (xs : List α) (view : ℕ × ℕ) : List α :=
  xs.take view.1 ++ xs.drop view.2

/-- `addAll(index, c)` -/
def addAll (xs : List α) (index : ℤ) (c : CollectionArg α) :
    Except (AssignmentError E) (List α) :=
  if 0 ≤ index ∧ index ≤ xs.length then do
    let a ← J.toArray xs c
    return xs.take index.toNat ++ a ++ xs.drop index.toNat
  else .error (.list .indexOutOfBounds)

end ListImplementation

namespace ListCustomizer

variable (J : ListImplementation α E) (conv : Py → Except E α)

/-- `self[start:stop]`, the view. -/
def viewOf (xs : List α) (ndx : PySlice) : Except (AssignmentError E) (ℕ × ℕ) := do
  let ndx ← (sliceAdjust ndx xs.length).mapError .list
  ListImplementation.subList xs (ndx.start.getD 0) (ndx.stop.getD 0)

/-- `__setitem__` of a slice, with every kind of right-hand side: how it ends, and the elements
then. -/
def assignSlice (xs : List α) (ndx : PySlice) (v : RightHand α Py) :
    Except (AssignmentError E) Unit × List α :=
  match sliceAdjust ndx xs.length with
  | .error e => (.error (.list e), xs)
  | .ok ndx =>
    match viewOf xs ⟨ndx.start, ndx.stop, none⟩ with
    | .error e => (.error e, xs)
    | .ok view =>
      let cleared := ListImplementation.clear xs view
      match v.toCollection conv >>= J.addAll cleared (ndx.start.getD 0) with
      | .error e => (.error e, cleared)
      | .ok xs' => (.ok (), xs')

/-- **A failed assignment changes nothing.** -/
def FailsClean (xs : List α) (ndx : PySlice) (v : RightHand α Py) : Prop :=
  ∀ e, (assignSlice J conv xs ndx v).1 = .error e → (assignSlice J conv xs ndx v).2 = xs

end ListCustomizer

/-! ### When it does -/

/-- The bounds of a slice after one adjustment. -/
def PySlice.once (s : PySlice) (size : ℤ) : ℤ × ℤ :=
  (ListCustomizer.adjust size (s.start.getD 0), ListCustomizer.adjust size (s.stop.getD size))

/-- The bounds of a slice after two adjustments. -/
def PySlice.twice (s : PySlice) (size : ℤ) : ℤ × ℤ :=
  (ListCustomizer.adjust size (s.once size).1, ListCustomizer.adjust size (s.once size).2)

/-- The step is refused. -/
def PySlice.Strided (s : PySlice) : Prop :=
  ∃ step ∈ s.step, step ≠ 0 ∧ (1 < step ∨ step < 0)

/-- An assignment to the slice clears some elements: those between its bounds, which are adjusted
twice. -/
structure PySlice.Clears (s : PySlice) (xs : List α) : Prop where
  unit : ¬s.Strided
  start : 0 ≤ (s.twice xs.length).1
  nonempty : (s.twice xs.length).1 < (s.twice xs.length).2
  stop : (s.twice xs.length).2 ≤ xs.length

/-- The right-hand side can be added to the list with the elements `xs`. -/
def RightHand.Taken (J : ListImplementation α E) (conv : Py → Except E α) (xs : List α) :
    RightHand α Py → Prop
  | none => False
  | collection _ => True
  | sequence items => ∀ p ∈ items, (conv p).isOk
  | other => False
  | itself => (J.itself xs).isOk
  | view bounds => (J.staleView bounds xs).isOk

namespace ListCustomizer

variable {J : ListImplementation α E} {conv : Py → Except E α} {xs : List α} {ndx : PySlice}

theorem sliceAdjust_of_strided (h : ndx.Strided) (size : ℤ) :
    sliceAdjust ndx size = .error .typeError :=
  if_pos h

theorem sliceAdjust_of_not_strided (h : ¬ndx.Strided) (size : ℤ) :
    sliceAdjust ndx size = .ok ⟨some (ndx.once size).1, some (ndx.once size).2, none⟩ :=
  if_neg h

variable (xs ndx) in
/-- The view that is cleared has been adjusted twice. -/
theorem viewOf_once :
    viewOf (E := E) xs ⟨some (ndx.once xs.length).1, some (ndx.once xs.length).2, none⟩ =
      ListImplementation.subList xs (ndx.twice xs.length).1 (ndx.twice xs.length).2 := by
  rw [viewOf, sliceAdjust_of_not_strided (by rintro ⟨step, hstep, -⟩; cases hstep)]
  rfl

theorem clear_empty (n : ℕ) : ListImplementation.clear xs (n, n) = xs :=
  List.take_append_drop n xs

variable (xs) in
theorem length_clear {a b : ℕ} (hab : a ≤ b) (hb : b ≤ xs.length) :
    (ListImplementation.clear xs (a, b)).length = xs.length - (b - a) := by
  rw [ListImplementation.clear, List.length_append, List.length_take, List.length_drop]
  omega

variable (J conv xs) in
/-- Adding the right-hand side succeeds if the index is in range and its elements can be had. -/
theorem isOk_addAll_iff (v : RightHand α Py) (index : ℤ) :
    (v.toCollection conv >>= J.addAll xs index).isOk ↔
      (0 ≤ index ∧ index ≤ xs.length) ∧ v.Taken J conv xs := by
  by_cases hindex : 0 ≤ index ∧ index ≤ xs.length
  · have hadd : ∀ c, (J.addAll xs index c).isOk ↔ (J.toArray xs c).isOk := by
      intro c
      rw [ListImplementation.addAll, if_pos hindex]
      rcases J.toArray xs c with e | a
      · exact iff_of_false nofun nofun
      · exact iff_of_true rfl rfl
    rw [and_iff_right hindex]
    rcases v with - | elements | items | - | - | bounds
    · exact (hadd .null).trans (iff_of_false nofun id)
    · exact (hadd (.elements elements)).trans (iff_of_true rfl trivial)
    · rw [RightHand.Taken, ← isOk_mapM_iff, RightHand.toCollection]
      rcases items.mapM conv with e | elements
      · exact iff_of_false nofun nofun
      · exact (hadd (.elements elements)).trans (iff_of_true rfl rfl)
    · exact iff_of_false nofun id
    · refine (hadd .itself).trans ?_
      rw [ListImplementation.toArray, RightHand.Taken]
      rcases J.itself xs with e | a <;> rfl
    · refine (hadd (.view bounds)).trans ?_
      rw [ListImplementation.toArray, RightHand.Taken]
      rcases J.staleView bounds xs with e | a <;> rfl
  · refine iff_of_false (fun hok ↦ ?_) fun h ↦ hindex h.1
    rcases hc : v.toCollection conv with e | c <;> rw [hc] at hok
    · cases hok
    · have hok : (J.addAll xs index c).isOk := hok
      rw [ListImplementation.addAll, if_neg hindex] at hok
      cases hok

/-- A start that is in range after the first adjustment is not adjusted again. -/
theorem twice_start (h : 0 ≤ (ndx.once xs.length).1) :
    (ndx.twice xs.length).1 = (ndx.once xs.length).1 :=
  if_neg (by omega)

/-- An operand, as a right-hand side. -/
def rightHand {Chr : Type} : Operand Chr → RightHand (Item Chr) (Item Chr)
  | .none => .none
  | .str _ => .other
  | .list l => .sequence l

/-- On a list of strings this is the operation `setSlice`. -/
theorem setSlice_eq {Chr : Type} (J : ListImplementation (Item Chr) E) (xs : List (Item Chr))
    (ndx : PySlice) (v : Operand Chr) :
    (setSlice xs ndx v).1.isOk = (assignSlice J .ok xs ndx (rightHand v)).1.isOk ∧
      (setSlice xs ndx v).2 = (assignSlice J .ok xs ndx (rightHand v)).2 := by
  rw [setSlice, assignSlice]
  by_cases hstride : ndx.Strided
  · rw [sliceAdjust_of_strided hstride]
    exact ⟨rfl, rfl⟩
  rw [sliceAdjust_of_not_strided hstride]
  dsimp only
  have hview : getSlice xs ⟨some (ndx.once xs.length).1, some (ndx.once xs.length).2, none⟩ =
      JavaList.subList xs (ndx.twice xs.length).1 (ndx.twice xs.length).2 := by
    rw [getSlice, sliceAdjust_of_not_strided (by rintro ⟨step, hstep, -⟩; cases hstep)]
    rfl
  rw [viewOf_once, hview, JavaList.subList, ListImplementation.subList]
  split_ifs
  · exact ⟨rfl, rfl⟩
  · exact ⟨rfl, rfl⟩
  simp only [Option.getD_some]
  have hclear : ListImplementation.clear xs = JavaList.clear xs := rfl
  rw [hclear]
  generalize JavaList.clear xs
    ((ndx.twice xs.length).1.toNat, (ndx.twice xs.length).2.toNat) = cleared
  -- Both have cleared the view by now; what is added to it is nothing, a string or a list.
  rcases v with - | s | l
  · have hnull : ∃ e, J.addAll cleared (ndx.once xs.length).1 .null = .error e := by
      rw [ListImplementation.addAll]
      split <;> exact ⟨_, rfl⟩
    obtain ⟨e, hnull⟩ := hnull
    have hadd : (rightHand .none).toCollection .ok >>= J.addAll cleared (ndx.once xs.length).1 =
      .error e := hnull
    rw [hadd]
    exact ⟨rfl, rfl⟩
  · exact ⟨rfl, rfl⟩
  · have hitems : (rightHand (.list l)).toCollection (E := E) .ok = .ok (.elements l) := by
      rw [rightHand, RightHand.toCollection,
        show l.mapM Except.ok = .ok (l.map id) from mapM_eq_ok fun _ _ ↦ rfl, List.map_id]
      rfl
    rw [hitems]
    by_cases hindex : 0 ≤ (ndx.once xs.length).1 ∧ (ndx.once xs.length).1 ≤ cleared.length
    · have hadd : Except.ok (.elements l) >>= J.addAll cleared (ndx.once xs.length).1 =
          .ok (cleared.take (ndx.once xs.length).1.toNat ++ l ++
            cleared.drop (ndx.once xs.length).1.toNat) := by
        show J.addAll _ _ _ = _
        rw [ListImplementation.addAll, if_pos hindex]
        rfl
      rw [hadd]
      show (commit cleared do
        return (.none, ← JavaList.addAll cleared (ndx.once xs.length).1 l)).1.isOk = _ ∧
          (commit cleared do
            return (.none, ← JavaList.addAll cleared (ndx.once xs.length).1 l)).2 = _
      rw [JavaList.addAll, if_pos hindex]
      exact ⟨rfl, rfl⟩
    · have hadd : Except.ok (.elements l) >>= J.addAll cleared (ndx.once xs.length).1 =
          .error (.list .indexOutOfBounds) := if_neg hindex
      rw [hadd]
      show (commit cleared do
        return (.none, ← JavaList.addAll cleared (ndx.once xs.length).1 l)).1.isOk = _ ∧
          (commit cleared do
            return (.none, ← JavaList.addAll cleared (ndx.once xs.length).1 l)).2 = _
      rw [JavaList.addAll, if_neg hindex]
      exact ⟨rfl, rfl⟩

end ListCustomizer

/-! ### `java.util.ArrayList` -/

/-- What a list raises besides. -/
inductive JavaFailure where
  | concurrentModification
  /-- `TypeError` of a conversion. -/
  | typeError
  deriving DecidableEq, Repr

/-- `java.util.ArrayList`, whose views count the modifications. -/
def arrayList (α : Type) : ListImplementation α JavaFailure where
  itself xs := .ok xs
  staleView _ _ := .error .concurrentModification

namespace ListCustomizer

/-- Text, and nothing else, is converted to `java.lang.Object`. -/
def textOnly (text : Option String) : Except JavaFailure String :=
  match text with
  | some s => .ok s
  | none => .error .typeError

end ListCustomizer

end JPype
