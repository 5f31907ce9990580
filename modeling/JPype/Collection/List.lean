import JPype.Array.Slice
import JPype.Foundation.Traces

/-!
# `java.util.List` as a Python sequence

The customizer `_JList` makes of the methods of a Java list the operations of a Python list. It
adjusts negative indices and bounds itself, the bounds of a slice that is set or deleted twice, and
hands them to methods that check their range where Python clips. A history of operations gives on
the list what it gives on a Python list, exactly if each of its operations is `Faithful` at its time
(`listRefinesList_iff`).
-/

open Foundation

namespace JPype

/-- The exceptions, of Python and of Java. -/
inductive ListError where
  | indexError
  | valueError
  | typeError
  | attributeError
  | indexOutOfBounds
  | illegalArgument
  | nullPointer
  deriving DecidableEq, Repr

/-- An element: a string, or null, which is `None`. -/
abbrev Item (Chr : Type) := Option (List Chr)

/-- A slice without a stride. -/
structure UnitSlice extends PySlice where
  unit : step = none ∨ step = some 1
  deriving DecidableEq

/-- An operand that is to be iterated. -/
inductive Operand (Chr : Type) where
  | none
  | str (s : List Chr)
  | list (l : List (Item Chr))
  deriving DecidableEq

namespace Operand

variable {Chr : Type}

/-- The conversion to `java.util.Collection`, which takes no string, and the call with it, which
takes no null. -/
def toCollection : Operand Chr → Except ListError (List (Item Chr))
  | none => .error .nullPointer
  | str _ => .error .typeError
  | list l => .ok l

/-- The conversion to `java.lang.Object`, which takes no Python list. -/
def toObject : Operand Chr → Except ListError (Item Chr)
  | none => .ok .none
  | str s => .ok (some s)
  | list _ => .error .typeError

/-- The iteration in Python: the characters of a string. -/
def iterate : Operand Chr → Except ListError (List (Item Chr))
  | none => .error .typeError
  | str s => .ok (s.map fun c ↦ some [c])
  | list l => .ok l

end Operand

/-- The operations. -/
inductive ListOp (Chr : Type) where
  | getItem (ndx : ℤ)
  | getSlice (ndx : UnitSlice)
  | setItem (ndx : ℤ) (v : Item Chr)
  | setSlice (ndx : UnitSlice) (v : Operand Chr)
  | delItem (ndx : ℤ)
  | delSlice (ndx : UnitSlice)
  | insert (idx : ℤ) (obj : Item Chr)
  | append (obj : Item Chr)
  | extend (lst : Operand Chr)
  | pop (idx : Option ℤ)
  | reverse
  | remove (obj : Item Chr)
  | index (obj : Item Chr)
  | count (obj : Item Chr)
  | iadd (obj : Operand Chr)
  deriving DecidableEq

/-- The values of the operations. -/
inductive ListValue (Chr : Type) where
  | none
  | item (v : Item Chr)
  | items (l : List (Item Chr))
  | int (n : ℤ)
  | bool (b : Bool)
  deriving DecidableEq

variable {Chr : Type}

/-- The answer of an operation that changes the contents if it succeeds. -/
def commit (xs : List (Item Chr)) :
    Except ListError (ListValue Chr × List (Item Chr)) →
      Except ListError (ListValue Chr) × List (Item Chr)
  | .error e => (.error e, xs)
  | .ok (v, xs') => (.ok v, xs')

/-- Success or failure is the same, and so are the value and the contents. -/
def SameResult (a b : Except ListError (ListValue Chr) × List (Item Chr)) : Prop :=
  (match a.1, b.1 with
    | .error _, .error _ => True
    | .ok v, .ok v' => v = v'
    | _, _ => False) ∧ a.2 = b.2

/-! ### The Java list -/

namespace JavaList

variable (xs : List (Item Chr))

/-- `get` -/
def get (index : ℤ) : Except ListError (Item Chr) :=
  if 0 ≤ index then
    match xs[index.toNat]? with
    | some v => .ok v
    | none => .error .indexOutOfBounds
  else .error .indexOutOfBounds

/-- `set` -/
def set (index : ℤ) (v : Item Chr) : Except ListError (List (Item Chr)) :=
  if 0 ≤ index ∧ index < xs.length then .ok (xs.set index.toNat v) else .error .indexOutOfBounds

/-- `remove(int)`: the element removed, and what is left. -/
def removeAt (index : ℤ) : Except ListError (Item Chr × List (Item Chr)) :=
  match get xs index with
  | .error e => .error e
  | .ok v => .ok (v, xs.eraseIdx index.toNat)

/-- `subList`: the bounds of the view. -/
def subList (fromIndex toIndex : ℤ) : Except ListError (ℕ × ℕ) :=
  if fromIndex < 0 ∨ xs.length < toIndex then .error .indexOutOfBounds
  else if toIndex < fromIndex then .error .illegalArgument
  else .ok (fromIndex.toNat, toIndex.toNat)

/-- The elements of a view. -/
def viewed (view : ℕ × ℕ) : List (Item Chr) :=
  (xs.take view.2).drop view.1

/-- `clear` of a view. -/
def clear (view : ℕ × ℕ) : List (Item Chr) :=
  xs.take view.1 ++ xs.drop view.2

/-- `add(int, E)` -/
def add (index : ℤ) (v : Item Chr) : Except ListError (List (Item Chr)) :=
  if 0 ≤ index ∧ index ≤ xs.length then .ok (xs.insertIdx index.toNat v)
  else .error .indexOutOfBounds

/-- `addAll(int, Collection)` -/
def addAll (index : ℤ) (c : List (Item Chr)) : Except ListError (List (Item Chr)) :=
  if 0 ≤ index ∧ index ≤ xs.length then .ok (xs.take index.toNat ++ c ++ xs.drop index.toNat)
  else .error .indexOutOfBounds

/-- `indexOf` -/
def indexOf [DecidableEq Chr] (o : Item Chr) : ℤ :=
  if o ∈ xs then xs.idxOf o else -1

/-- `remove(Object)` -/
def remove [DecidableEq Chr] (o : Item Chr) : Bool × List (Item Chr) :=
  (decide (o ∈ xs), xs.erase o)

end JavaList

/-! ### The customizer `_JList` -/

namespace ListCustomizer

/-- A negative index counts from the end. -/
def adjust (size i : ℤ) : ℤ :=
  if i < 0 then i + size else i

/-- `_sliceAdjust` -/
def sliceAdjust (slc : PySlice) (size : ℤ) : Except ListError PySlice :=
  if ∃ step ∈ slc.step, step ≠ 0 ∧ (1 < step ∨ step < 0) then .error .typeError
  else
    .ok ⟨some (adjust size (slc.start.getD 0)), some (adjust size (slc.stop.getD size)), none⟩

/-- `__getitem__` of a slice: the view. -/
def getSlice (xs : List (Item Chr)) (ndx : PySlice) : Except ListError (ℕ × ℕ) := do
  let ndx ← sliceAdjust ndx xs.length
  JavaList.subList xs (ndx.start.getD 0) (ndx.stop.getD 0)

/-- `__setitem__` of a slice. What the view has been cleared of is gone if the rest fails. -/
def setSlice (xs : List (Item Chr)) (ndx : PySlice) (v : Operand Chr) :
    Except ListError (ListValue Chr) × List (Item Chr) :=
  match sliceAdjust ndx xs.length with
  | .error e => (.error e, xs)
  | .ok ndx =>
    match getSlice xs ⟨ndx.start, ndx.stop, none⟩ with
    | .error e => (.error e, xs)
    | .ok view =>
      let cleared := JavaList.clear xs view
      commit cleared do
        let c ← v.toCollection
        return (.none, ← JavaList.addAll cleared (ndx.start.getD 0) c)

/-- `__delitem__` of a slice. -/
def delSlice (xs : List (Item Chr)) (ndx : PySlice) :
    Except ListError (ListValue Chr × List (Item Chr)) := do
  let ndx ← sliceAdjust ndx xs.length
  let view ← getSlice xs ⟨ndx.start, ndx.stop, none⟩
  return (.none, JavaList.clear xs view)

variable [DecidableEq Chr]

/-- `count`: `equals` is called on each element, and `None` has no such method. -/
def count (obj : Item Chr) : List (Item Chr) → Except ListError ℕ
  | [] => .ok 0
  | none :: _ => .error .attributeError
  | some s :: xs => do
    let c ← count obj xs
    return if some s = obj then c + 1 else c

/-- `remove` -/
def remove (xs : List (Item Chr)) (obj : Item Chr) :
    Except ListError (ListValue Chr × List (Item Chr)) :=
  match JavaList.remove xs obj with
  | (true, xs') => .ok (.none, xs')
  | (false, _) => .error .valueError

/-- An operation on a wrapped list. -/
def step (xs : List (Item Chr)) :
    ListOp Chr → Except ListError (ListValue Chr) × List (Item Chr)
  | .getItem ndx => ((JavaList.get xs (adjust xs.length ndx)).map .item, xs)
  | .getSlice ndx =>
    ((getSlice xs ndx.toPySlice).map fun view ↦ .items (JavaList.viewed xs view), xs)
  | .setItem ndx v => commit xs ((JavaList.set xs (adjust xs.length ndx) v).map (.none, ·))
  | .setSlice ndx v => setSlice xs ndx.toPySlice v
  | .delItem ndx => commit xs ((JavaList.removeAt xs (adjust xs.length ndx)).map (.none, ·.2))
  | .delSlice ndx => commit xs (delSlice xs ndx.toPySlice)
  | .insert idx obj => commit xs ((JavaList.add xs (adjust xs.length idx) obj).map (.none, ·))
  | .append obj => (.ok (.bool true), xs ++ [obj])
  | .extend lst => commit xs (lst.toCollection.map fun c ↦ (.none, xs ++ c))
  | .pop idx =>
    commit xs ((JavaList.removeAt xs (adjust xs.length (idx.getD (-1)))).map fun r ↦
      (.item r.1, r.2))
  | .reverse => (.ok .none, xs.reverse)
  | .remove obj => commit xs (remove xs obj)
  | .index obj => (.ok (.int (JavaList.indexOf xs obj)), xs)
  | .count obj => ((count obj xs).map fun c ↦ .int c, xs)
  | .iadd obj => commit xs (obj.toObject.map fun o ↦ (.none, xs ++ [o]))

end ListCustomizer

/-! ### The Python list -/

namespace PyList

/-- The position of an index. -/
def position (xs : List (Item Chr)) (i : ℤ) : Except ListError (Fin xs.length) :=
  let i := if i < 0 then i + xs.length else i
  if h : 0 ≤ i ∧ i < xs.length then .ok ⟨i.toNat, by omega⟩ else .error .indexError

/-- The first position of a slice without a stride. -/
def low (xs : List (Item Chr)) (s : UnitSlice) : ℕ :=
  (s.startOf xs.length).toNat

/-- The position behind a slice without a stride. -/
def high (xs : List (Item Chr)) (s : UnitSlice) : ℕ :=
  max (low xs s) (s.stopOf xs.length).toNat

/-- The elements with those of a slice replaced. -/
def splice (xs : List (Item Chr)) (s : UnitSlice) (items : List (Item Chr)) : List (Item Chr) :=
  xs.take (low xs s) ++ items ++ xs.drop (high xs s)

variable [DecidableEq Chr]

/-- An operation on a Python list. -/
def step (xs : List (Item Chr)) :
    ListOp Chr → Except ListError (ListValue Chr) × List (Item Chr)
  | .getItem ndx => ((position xs ndx).map fun k ↦ .item xs[k], xs)
  | .getSlice ndx => (.ok (.items (ndx.select xs)), xs)
  | .setItem ndx v => commit xs ((position xs ndx).map fun k ↦ (.none, xs.set k v))
  | .setSlice ndx v => commit xs (v.iterate.map fun items ↦ (.none, splice xs ndx items))
  | .delItem ndx => commit xs ((position xs ndx).map fun k ↦ (.none, xs.eraseIdx k))
  | .delSlice ndx => (.ok .none, splice xs ndx [])
  | .insert idx obj =>
    let idx := if idx < 0 then max (idx + xs.length) 0 else min idx xs.length
    (.ok .none, xs.insertIdx idx.toNat obj)
  | .append obj => (.ok .none, xs ++ [obj])
  | .extend lst => commit xs (lst.iterate.map fun items ↦ (.none, xs ++ items))
  | .pop idx =>
    commit xs ((position xs (idx.getD (-1))).map fun (k : Fin _) ↦ (.item xs[k], xs.eraseIdx k))
  | .reverse => (.ok .none, xs.reverse)
  | .remove obj => commit xs (if obj ∈ xs then .ok (.none, xs.erase obj) else .error .valueError)
  | .index obj => (if obj ∈ xs then .ok (.int (xs.idxOf obj)) else .error .valueError, xs)
  | .count obj => (.ok (.int (xs.count obj)), xs)
  | .iadd obj => commit xs (obj.iterate.map fun items ↦ (.none, xs ++ items))

end PyList

/-! ### One operation -/

/-- The bounds of a slice after one adjustment. -/
def UnitSlice.once (s : UnitSlice) (size : ℤ) : ℤ × ℤ :=
  (ListCustomizer.adjust size (s.start.getD 0), ListCustomizer.adjust size (s.stop.getD size))

/-- The bounds of a slice after two adjustments. -/
def UnitSlice.twice (s : UnitSlice) (size : ℤ) : ℤ × ℤ :=
  (ListCustomizer.adjust size (s.once size).1, ListCustomizer.adjust size (s.once size).2)

/-- An operation gives on the Java list what it gives on a Python list. -/
def ListOp.Faithful (xs : List (Item Chr)) : ListOp Chr → Prop
  | getSlice s =>
    0 ≤ (s.once xs.length).1 ∧ (s.once xs.length).1 ≤ (s.once xs.length).2 ∧
      (s.once xs.length).2 ≤ xs.length
  | setSlice s .none =>
    ¬(0 ≤ (s.twice xs.length).1 ∧ (s.twice xs.length).1 < (s.twice xs.length).2 ∧
      (s.twice xs.length).2 ≤ xs.length)
  | setSlice _ (.str _) => False
  | setSlice s (.list _) =>
    0 ≤ (s.once xs.length).1 ∧
      ((s.once xs.length).1 ≤ (s.once xs.length).2 ∧ (s.once xs.length).2 ≤ xs.length ∨
        (s.once xs.length).2 < 0 ∧ (s.once xs.length).2 + xs.length = (s.once xs.length).1)
  | delSlice s =>
    0 ≤ (s.twice xs.length).1 ∧ (s.twice xs.length).1 ≤ (s.twice xs.length).2 ∧
      (s.twice xs.length).2 ≤ xs.length ∧
      (s.twice xs.length).2 - (s.twice xs.length).1 = s.count xs.length
  | insert idx _ => -xs.length ≤ idx ∧ idx ≤ xs.length
  | append _ => False
  | extend (.str _) => False
  | index obj => obj ∈ xs
  | count _ => none ∉ xs
  | iadd (.str s) => s.length = 1
  | iadd _ => False
  | _ => True

section Comparison

variable {xs : List (Item Chr)}

/-- An index that the customizer adjusts into the range of the list is a position of it. -/
theorem position_of_adjust {ndx : ℤ} (h : 0 ≤ ListCustomizer.adjust xs.length ndx ∧
      ListCustomizer.adjust xs.length ndx < xs.length) :
    PyList.position xs ndx = .ok ⟨(ListCustomizer.adjust xs.length ndx).toNat, by omega⟩ :=
  dif_pos h

theorem position_of_not_adjust {ndx : ℤ} (h : ¬(0 ≤ ListCustomizer.adjust xs.length ndx ∧
      ListCustomizer.adjust xs.length ndx < xs.length)) :
    PyList.position xs ndx = .error .indexError :=
  dif_neg h

theorem get_of_range {index : ℤ} (h : 0 ≤ index ∧ index < xs.length) :
    JavaList.get xs index = .ok xs[index.toNat] := by
  have hlt : index.toNat < xs.length := by omega
  rw [JavaList.get, if_pos h.1, List.getElem?_eq_getElem hlt]

theorem get_of_not_range {index : ℤ} (h : ¬(0 ≤ index ∧ index < xs.length)) :
    JavaList.get xs index = .error .indexOutOfBounds := by
  rw [JavaList.get]
  split_ifs with h0
  · rw [List.getElem?_eq_none (by omega)]
  · rfl

/-! ### Slices without a stride -/

theorem UnitSlice.stepOf_eq (s : UnitSlice) : s.stepOf = 1 := by
  rw [PySlice.stepOf]
  obtain h | h := s.unit <;> rw [h] <;> rfl

/-- The bounds of Python are the bounds after one adjustment, clipped to the list. -/
theorem UnitSlice.startOf_eq (s : UnitSlice) {n : ℤ} (hn : 0 ≤ n) :
    s.startOf n = max 0 (min (s.once n).1 n) := by
  rw [PySlice.startOf, s.stepOf_eq]
  cases hstart : s.start with
  | none => simp [UnitSlice.once, hstart, ListCustomizer.adjust, PySlice.lower, hn]
  | some i =>
    simp only [UnitSlice.once, hstart, Option.getD_some, ListCustomizer.adjust, PySlice.clip,
      PySlice.lower, PySlice.upper]
    split_ifs <;> omega

theorem UnitSlice.stopOf_eq (s : UnitSlice) {n : ℤ} (hn : 0 ≤ n) :
    s.stopOf n = max 0 (min (s.once n).2 n) := by
  rw [PySlice.stopOf, s.stepOf_eq]
  cases hstop : s.stop with
  | none =>
    simp only [UnitSlice.once, hstop, Option.getD_none, ListCustomizer.adjust, PySlice.upper]
    split_ifs <;> omega
  | some i =>
    simp only [UnitSlice.once, hstop, Option.getD_some, ListCustomizer.adjust, PySlice.clip,
      PySlice.lower, PySlice.upper]
    split_ifs <;> omega

theorem UnitSlice.count_eq (s : UnitSlice) (n : ℤ) :
    (s.count n : ℤ) = max 0 (s.stopOf n - s.startOf n) := by
  rw [PySlice.count, s.stepOf_eq, rangeLength_of_pos one_pos]
  simp only [multiplesBelow]
  omega

theorem low_cast (xs : List (Item Chr)) (s : UnitSlice) :
    (PyList.low xs s : ℤ) = max 0 (min (s.once xs.length).1 xs.length) := by
  rw [PyList.low, s.startOf_eq (Int.natCast_nonneg _), Int.toNat_of_nonneg (le_max_left _ _)]

theorem high_cast (xs : List (Item Chr)) (s : UnitSlice) :
    (PyList.high xs s : ℤ) = max (PyList.low xs s : ℤ) (min (s.once xs.length).2 xs.length) := by
  have hlow : (0 : ℤ) ≤ PyList.low xs s := Int.natCast_nonneg _
  rw [PyList.high, Nat.cast_max, s.stopOf_eq (Int.natCast_nonneg _),
    Int.toNat_of_nonneg (le_max_left _ _), ← max_assoc, max_eq_left hlow]

theorem low_le_high (xs : List (Item Chr)) (s : UnitSlice) : PyList.low xs s ≤ PyList.high xs s :=
  le_max_left _ _

theorem high_le_length (xs : List (Item Chr)) (s : UnitSlice) : PyList.high xs s ≤ xs.length := by
  have hlow := low_cast xs s
  have hhigh := high_cast xs s
  omega

theorem count_cast (xs : List (Item Chr)) (s : UnitSlice) :
    s.count xs.length = PyList.high xs s - PyList.low xs s := by
  have hcount := s.count_eq xs.length
  have hstart := s.startOf_eq (Int.natCast_nonneg xs.length)
  have hstop := s.stopOf_eq (Int.natCast_nonneg xs.length)
  rw [PyList.high, PyList.low]
  omega

/-- Bounds that have been adjusted twice are those of Python, or those of an empty stretch, if they
select as many elements. -/
theorem adjust_positions {a b n : ℤ} {low high : ℕ} (hlow : (low : ℤ) = max 0 (min a n))
    (hhigh : (high : ℤ) = max (low : ℤ) (min b n))
    (hab : ListCustomizer.adjust n a ≤ ListCustomizer.adjust n b)
    (hb : ListCustomizer.adjust n b ≤ n)
    (heq : ListCustomizer.adjust n b - ListCustomizer.adjust n a = (high : ℤ) - low) :
    ListCustomizer.adjust n a = low ∧ ListCustomizer.adjust n b = high ∨
      ListCustomizer.adjust n a = ListCustomizer.adjust n b ∧ low = high := by
  unfold ListCustomizer.adjust at *
  split_ifs at * <;> omega

theorem filterMap_progression (xs : List (Item Chr)) (c : ℕ) :
    ∀ a : ℕ, (progression a 1 c).filterMap (fun i ↦ xs[i.toNat]?) = (xs.drop a).take c := by
  induction c with
  | zero => exact fun a ↦ by rw [progression_zero, List.take_zero, List.filterMap_nil]
  | succ c ih =>
    intro a
    have hsucc := ih (a + 1)
    rw [progression_succ, List.filterMap_cons, Int.toNat_natCast]
    push_cast at hsucc
    obtain hlt | hge := Nat.lt_or_ge a xs.length
    · rw [List.getElem?_eq_getElem hlt, hsucc, List.drop_eq_getElem_cons hlt, List.take_succ_cons]
    · rw [List.getElem?_eq_none hge, hsucc, List.drop_eq_nil_of_le hge,
        List.drop_eq_nil_of_le (by omega), List.take_nil, List.take_nil]

/-- A slice is the stretch between its bounds. -/
theorem UnitSlice.select_eq (s : UnitSlice) (xs : List (Item Chr)) :
    s.select xs = (xs.take (PyList.high xs s)).drop (PyList.low xs s) := by
  have hstart : s.startOf xs.length = (PyList.low xs s : ℤ) := by
    rw [low_cast, s.startOf_eq (Int.natCast_nonneg _)]
  rw [PySlice.select, PySlice.positions, s.stepOf_eq, hstart, filterMap_progression, count_cast,
    List.drop_take]

theorem sliceAdjust_unit (s : UnitSlice) (n : ℤ) :
    ListCustomizer.sliceAdjust s.toPySlice n = .ok
      ⟨some (s.once n).1, some (s.once n).2, none⟩ := by
  rw [ListCustomizer.sliceAdjust, if_neg]
  · rfl
  · rintro ⟨step, hstep, hne, hstride⟩
    obtain h | h := s.unit
    · rw [h] at hstep
      cases hstep
    · rw [h] at hstep
      cases hstep
      omega

theorem getSlice_unit (s : UnitSlice) :
    ListCustomizer.getSlice xs s.toPySlice =
      JavaList.subList xs (s.once xs.length).1 (s.once xs.length).2 := by
  rw [ListCustomizer.getSlice, sliceAdjust_unit]
  rfl

/-- A slice of adjusted bounds is adjusted again. -/
theorem getSlice_once (s : UnitSlice) :
    ListCustomizer.getSlice xs ⟨some (s.once xs.length).1, some (s.once xs.length).2, none⟩ =
      JavaList.subList xs (s.twice xs.length).1 (s.twice xs.length).2 := by
  rw [ListCustomizer.getSlice, ListCustomizer.sliceAdjust, if_neg (by simp)]
  rfl

theorem subList_of_range {a b : ℤ} (h : 0 ≤ a ∧ a ≤ b ∧ b ≤ xs.length) :
    JavaList.subList xs a b = .ok (a.toNat, b.toNat) := by
  rw [JavaList.subList, if_neg (by omega), if_neg (by omega)]

theorem subList_of_not_range {a b : ℤ} (h : ¬(0 ≤ a ∧ a ≤ b ∧ b ≤ xs.length)) :
    ∃ e, JavaList.subList xs a b = .error e := by
  rw [JavaList.subList]
  split_ifs
  · exact ⟨_, rfl⟩
  · exact ⟨_, rfl⟩
  · omega

theorem setSlice_unit (s : UnitSlice) (v : Operand Chr) :
    ListCustomizer.setSlice xs s.toPySlice v =
      match JavaList.subList xs (s.twice xs.length).1 (s.twice xs.length).2 with
      | .error e => (.error e, xs)
      | .ok view =>
        commit (JavaList.clear xs view) do
          let c ← v.toCollection
          return (.none, ← JavaList.addAll (JavaList.clear xs view) (s.once xs.length).1 c) := by
  rw [ListCustomizer.setSlice, sliceAdjust_unit]
  dsimp only
  rw [getSlice_once]
  rfl

/-- What is put where a view has been cleared stands in the place of the view. -/
theorem addAll_clear {a b : ℤ} (h : 0 ≤ a ∧ a ≤ b ∧ b ≤ xs.length) (c : List (Item Chr)) :
    JavaList.addAll (JavaList.clear xs (a.toNat, b.toNat)) a c =
      .ok (xs.take a.toNat ++ c ++ xs.drop b.toNat) := by
  have hlen : (xs.take a.toNat).length = a.toNat := by
    rw [List.length_take]
    omega
  rw [JavaList.addAll, if_pos, JavaList.clear, List.take_left' hlen, List.drop_left' hlen]
  refine ⟨h.1, ?_⟩
  rw [JavaList.clear, List.length_append, hlen, List.length_drop]
  omega

/-- Stretches with the same number of elements, where the second one is either the first one or
both are empty. -/
theorem cut_eq_iff {a b c d : ℕ} (hab : a ≤ b) (hb : b ≤ xs.length) (hcd : c ≤ d)
    (hd : d ≤ xs.length) (h : b - a = d - c → a = c ∧ b = d ∨ a = b ∧ c = d) :
    xs.take a ++ xs.drop b = xs.take c ++ xs.drop d ↔ b - a = d - c := by
  constructor
  · intro heq
    have hlen := congrArg List.length heq
    simp only [List.length_append, List.length_take, List.length_drop] at hlen
    omega
  · intro heq
    obtain ⟨rfl, rfl⟩ | ⟨rfl, rfl⟩ := h heq
    · rfl
    · rw [List.take_append_drop, List.take_append_drop]

variable [DecidableEq Chr]

/-- Single items are read, set and removed alike. -/
theorem sameResult_position (ndx : ℤ) (v : Item Chr) :
    SameResult (ListCustomizer.step xs (.getItem ndx)) (PyList.step xs (.getItem ndx)) ∧
      SameResult (ListCustomizer.step xs (.setItem ndx v)) (PyList.step xs (.setItem ndx v)) ∧
      SameResult (ListCustomizer.step xs (.delItem ndx)) (PyList.step xs (.delItem ndx)) ∧
      SameResult (ListCustomizer.step xs (.pop (some ndx))) (PyList.step xs (.pop (some ndx))) := by
  simp only [ListCustomizer.step, PyList.step, JavaList.set, JavaList.removeAt, Option.getD_some]
  by_cases h : 0 ≤ ListCustomizer.adjust xs.length ndx ∧
      ListCustomizer.adjust xs.length ndx < xs.length
  · rw [position_of_adjust h, get_of_range h, if_pos h]
    exact ⟨⟨rfl, rfl⟩, ⟨rfl, rfl⟩, ⟨rfl, rfl⟩, ⟨rfl, rfl⟩⟩
  · rw [position_of_not_adjust h, get_of_not_range h, if_neg h]
    exact ⟨⟨trivial, rfl⟩, ⟨trivial, rfl⟩, ⟨trivial, rfl⟩, ⟨trivial, rfl⟩⟩

theorem sameResult_getSlice (s : UnitSlice) :
    SameResult (ListCustomizer.step xs (.getSlice s)) (PyList.step xs (.getSlice s)) ↔
      (ListOp.getSlice s).Faithful xs := by
  rw [ListCustomizer.step, getSlice_unit, PyList.step, s.select_eq]
  have hlow := low_cast xs s
  have hhigh := high_cast xs s
  by_cases h : (ListOp.getSlice s).Faithful xs
  · have hrange := h
    rw [ListOp.Faithful] at hrange
    rw [subList_of_range hrange, show PyList.low xs s = (s.once xs.length).1.toNat by omega,
      show PyList.high xs s = (s.once xs.length).2.toNat by omega]
    exact iff_of_true ⟨rfl, rfl⟩ h
  · obtain ⟨e, he⟩ := subList_of_not_range h
    rw [he]
    exact iff_of_false (fun hsame ↦ hsame.1) h

theorem sameResult_delSlice (s : UnitSlice) :
    SameResult (ListCustomizer.step xs (.delSlice s)) (PyList.step xs (.delSlice s)) ↔
      (ListOp.delSlice s).Faithful xs := by
  have hdel : ListCustomizer.delSlice xs s.toPySlice =
      (JavaList.subList xs (s.twice xs.length).1 (s.twice xs.length).2).map
        fun view ↦ (.none, JavaList.clear xs view) := by
    rw [ListCustomizer.delSlice, sliceAdjust_unit]
    show (ListCustomizer.getSlice xs _ >>= _) = _
    rw [getSlice_once]
    rfl
  have hlow := low_le_high xs s
  have hhigh := high_le_length xs s
  rw [ListCustomizer.step, hdel, PyList.step, ListOp.Faithful, count_cast]
  by_cases h : 0 ≤ (s.twice xs.length).1 ∧ (s.twice xs.length).1 ≤ (s.twice xs.length).2 ∧
      (s.twice xs.length).2 ≤ xs.length
  · rw [subList_of_range h]
    have hcut : JavaList.clear xs ((s.twice xs.length).1.toNat, (s.twice xs.length).2.toNat) =
        PyList.splice xs s [] ↔
          (s.twice xs.length).2.toNat - (s.twice xs.length).1.toNat =
            PyList.high xs s - PyList.low xs s := by
      rw [JavaList.clear, PyList.splice, List.append_nil]
      refine cut_eq_iff (by omega) (by omega) hlow hhigh fun heq ↦ ?_
      have hcount : (s.twice xs.length).2 - (s.twice xs.length).1 =
          (PyList.high xs s : ℤ) - PyList.low xs s := by omega
      have hpositions : (s.twice xs.length).1 = PyList.low xs s ∧
            (s.twice xs.length).2 = PyList.high xs s ∨
          (s.twice xs.length).1 = (s.twice xs.length).2 ∧ PyList.low xs s = PyList.high xs s :=
        adjust_positions (low_cast xs s) (high_cast xs s) h.2.1 h.2.2 hcount
      omega
    refine Iff.trans ⟨fun hsame ↦ hsame.2, fun heq ↦ ⟨rfl, heq⟩⟩ (hcut.trans ?_)
    omega
  · obtain ⟨e, he⟩ := subList_of_not_range h
    rw [he]
    refine iff_of_false (fun hsame ↦ hsame.1) fun hfaithful ↦ h ?_
    exact ⟨hfaithful.1, hfaithful.2.1, hfaithful.2.2.1⟩

theorem sameResult_setSlice_none (s : UnitSlice) :
    SameResult (ListCustomizer.step xs (.setSlice s .none)) (PyList.step xs (.setSlice s .none)) ↔
      (ListOp.setSlice s (.none : Operand Chr)).Faithful xs := by
  rw [ListCustomizer.step, setSlice_unit, PyList.step, ListOp.Faithful]
  by_cases h : 0 ≤ (s.twice xs.length).1 ∧ (s.twice xs.length).1 ≤ (s.twice xs.length).2 ∧
      (s.twice xs.length).2 ≤ xs.length
  · rw [subList_of_range h]
    have hcut : JavaList.clear xs ((s.twice xs.length).1.toNat, (s.twice xs.length).2.toNat) = xs ↔
        (s.twice xs.length).1 = (s.twice xs.length).2 := by
      rw [JavaList.clear]
      constructor
      · intro heq
        have hlen := congrArg List.length heq
        simp only [List.length_append, List.length_take, List.length_drop] at hlen
        omega
      · intro heq
        rw [heq, List.take_append_drop]
    refine Iff.trans ⟨fun hsame ↦ hsame.2, fun heq ↦ ⟨trivial, heq⟩⟩ (hcut.trans ?_)
    omega
  · obtain ⟨e, he⟩ := subList_of_not_range h
    rw [he]
    exact iff_of_true ⟨trivial, rfl⟩ fun hrange ↦ h ⟨hrange.1, hrange.2.1.le, hrange.2.2⟩

theorem sameResult_setSlice_list (s : UnitSlice) (l : List (Item Chr)) :
    SameResult (ListCustomizer.step xs (.setSlice s (.list l)))
        (PyList.step xs (.setSlice s (.list l))) ↔
      (ListOp.setSlice s (.list l)).Faithful xs := by
  have hstart := s.startOf_eq (Int.natCast_nonneg xs.length)
  have hstop := s.stopOf_eq (Int.natCast_nonneg xs.length)
  rw [ListCustomizer.step, setSlice_unit, PyList.step, ListOp.Faithful]
  by_cases h : 0 ≤ (s.twice xs.length).1 ∧ (s.twice xs.length).1 ≤ (s.twice xs.length).2 ∧
      (s.twice xs.length).2 ≤ xs.length
  · rw [subList_of_range h]
    -- The view is cleared before the index of the insertion is checked.
    obtain hneg | hnonneg : (s.once xs.length).1 < 0 ∨ 0 ≤ (s.once xs.length).1 := by omega
    · refine iff_of_false (fun hsame ↦ ?_) fun hfaithful ↦ by omega
      change SameResult (commit _ ((JavaList.addAll _ _ l).map (ListValue.none, ·))) _ at hsame
      rw [JavaList.addAll, if_neg (by omega)] at hsame
      exact hsame.1
    · have htwice : (s.twice xs.length).1 = (s.once xs.length).1 := by
        rw [UnitSlice.twice, ListCustomizer.adjust, if_neg (by omega)]
      rw [htwice] at h ⊢
      -- Then the items go to the right place, and the question is whether the right ones went.
      have hcontents : xs.take (s.once xs.length).1.toNat ++ l ++
            xs.drop (s.twice xs.length).2.toNat = PyList.splice xs s l ↔
          (s.twice xs.length).2.toNat = PyList.high xs s := by
        have hlow : PyList.low xs s = (s.once xs.length).1.toNat := by
          rw [PyList.low]
          omega
        have hhigh : PyList.high xs s ≤ xs.length := by
          rw [PyList.high, PyList.low]
          omega
        rw [PyList.splice, hlow, List.append_cancel_left_eq]
        refine ⟨fun heq ↦ ?_, fun heq ↦ by rw [heq]⟩
        have hlen := congrArg List.length heq
        rw [List.length_drop, List.length_drop] at hlen
        omega
      rw [Operand.toCollection, Operand.iterate]
      dsimp only
      refine Iff.trans ?_ (hcontents.trans ?_)
      · show SameResult (commit _ ((JavaList.addAll _ _ l).map (ListValue.none, ·))) _ ↔ _
        rw [addAll_clear h]
        exact ⟨fun hsame ↦ hsame.2, fun heq ↦ ⟨rfl, heq⟩⟩
      · rw [PyList.high, PyList.low]
        simp only [UnitSlice.twice, ListCustomizer.adjust] at *
        split_ifs at * <;> omega
  · obtain ⟨e, he⟩ := subList_of_not_range h
    rw [he]
    refine iff_of_false (fun hsame ↦ hsame.1) fun hfaithful ↦ h ?_
    simp only [UnitSlice.twice, ListCustomizer.adjust]
    split_ifs <;> omega

theorem sameResult_setSlice_str (s : UnitSlice) (cs : List Chr) :
    ¬SameResult (ListCustomizer.step xs (.setSlice s (.str cs)))
        (PyList.step xs (.setSlice s (.str cs))) := by
  rw [ListCustomizer.step, setSlice_unit, PyList.step]
  cases JavaList.subList xs (s.twice xs.length).1 (s.twice xs.length).2 with
  | error e => exact fun hsame ↦ hsame.1
  | ok view => exact fun hsame ↦ hsame.1

theorem sameResult_insert (idx : ℤ) (obj : Item Chr) :
    SameResult (ListCustomizer.step xs (.insert idx obj)) (PyList.step xs (.insert idx obj)) ↔
      -xs.length ≤ idx ∧ idx ≤ xs.length := by
  rw [ListCustomizer.step, JavaList.add, PyList.step]
  by_cases h : 0 ≤ ListCustomizer.adjust xs.length idx ∧
      ListCustomizer.adjust xs.length idx ≤ xs.length
  · have hidx : (if idx < 0 then max (idx + xs.length) 0 else min idx xs.length) =
        ListCustomizer.adjust xs.length idx := by
      rw [ListCustomizer.adjust] at h ⊢
      split_ifs at h ⊢ <;> omega
    rw [if_pos h, hidx]
    refine iff_of_true ⟨rfl, rfl⟩ ?_
    rw [ListCustomizer.adjust] at h
    split_ifs at h <;> omega
  · rw [if_neg h]
    refine iff_of_false (fun hsame ↦ hsame.1) fun hrange ↦ h ?_
    rw [ListCustomizer.adjust]
    split_ifs <;> omega

theorem sameResult_index (obj : Item Chr) :
    SameResult (ListCustomizer.step xs (.index obj)) (PyList.step xs (.index obj)) ↔ obj ∈ xs := by
  rw [ListCustomizer.step, JavaList.indexOf, PyList.step]
  by_cases h : obj ∈ xs
  · rw [if_pos h, if_pos h]
    exact iff_of_true ⟨rfl, rfl⟩ h
  · rw [if_neg h, if_neg h]
    exact iff_of_false (fun hsame ↦ hsame.1) h

/-- The elements are counted up to the first null. -/
theorem count_eq (obj : Item Chr) (xs : List (Item Chr)) :
    ListCustomizer.count obj xs =
      if none ∈ xs then .error .attributeError else .ok (xs.count obj) := by
  induction xs with
  | nil => rfl
  | cons x xs ih =>
    cases x with
    | none => rw [if_pos List.mem_cons_self, ListCustomizer.count]
    | some s =>
      have hmem : none ∈ some s :: xs ↔ none ∈ xs := by simp
      rw [ListCustomizer.count, ih]
      by_cases hnone : none ∈ xs
      · rw [if_pos hnone, if_pos (hmem.2 hnone)]
        rfl
      · rw [if_neg hnone, if_neg (mt hmem.1 hnone), List.count_cons]
        show Except.ok _ = _
        simp only [beq_iff_eq]
        split_ifs <;> rfl

theorem sameResult_count (obj : Item Chr) :
    SameResult (ListCustomizer.step xs (.count obj)) (PyList.step xs (.count obj)) ↔
      none ∉ xs := by
  rw [ListCustomizer.step, count_eq, PyList.step]
  by_cases h : none ∈ xs
  · rw [if_pos h]
    exact iff_of_false (fun hsame ↦ hsame.1) (not_not.2 h)
  · rw [if_neg h]
    exact iff_of_true ⟨rfl, rfl⟩ h

theorem sameResult_remove (obj : Item Chr) :
    SameResult (ListCustomizer.step xs (.remove obj)) (PyList.step xs (.remove obj)) := by
  rw [ListCustomizer.step, ListCustomizer.remove, JavaList.remove, PyList.step]
  by_cases h : obj ∈ xs
  · rw [decide_eq_true h, if_pos h]
    exact ⟨rfl, rfl⟩
  · rw [decide_eq_false h, if_neg h]
    exact ⟨trivial, rfl⟩

/-- `+=` adds the operand as one element, where Python adds the elements of the operand. -/
theorem sameResult_iadd (obj : Operand Chr) :
    SameResult (ListCustomizer.step xs (.iadd obj)) (PyList.step xs (.iadd obj)) ↔
      (ListOp.iadd obj).Faithful xs := by
  cases obj with
  | none => exact iff_of_false (fun hsame ↦ hsame.1) id
  | list l => exact iff_of_false (fun hsame ↦ hsame.1) id
  | str s =>
    have happend : xs ++ [some s] = xs ++ s.map (fun c ↦ some [c]) ↔ s.length = 1 := by
      rw [List.append_cancel_left_eq]
      constructor
      · intro heq
        have hlen := congrArg List.length heq
        rw [List.length_map] at hlen
        exact hlen.symm
      · intro hlen
        obtain ⟨c, rfl⟩ := List.length_eq_one_iff.1 hlen
        rfl
    exact Iff.trans ⟨fun hsame ↦ hsame.2, fun heq ↦ ⟨rfl, heq⟩⟩ happend

/-- **One operation** gives on the Java list what it gives on a Python list of the same contents,
exactly if it is `Faithful`. -/
theorem sameResult_iff (op : ListOp Chr) :
    SameResult (ListCustomizer.step xs op) (PyList.step xs op) ↔ op.Faithful xs := by
  cases op with
  | getItem ndx => exact iff_of_true (sameResult_position ndx none).1 trivial
  | getSlice ndx => exact sameResult_getSlice ndx
  | setItem ndx v => exact iff_of_true (sameResult_position ndx v).2.1 trivial
  | setSlice ndx v =>
    cases v with
    | none => exact sameResult_setSlice_none ndx
    | str s => exact iff_of_false (sameResult_setSlice_str ndx s) id
    | list l => exact sameResult_setSlice_list ndx l
  | delItem ndx => exact iff_of_true (sameResult_position ndx none).2.2.1 trivial
  | delSlice ndx => exact sameResult_delSlice ndx
  | insert idx obj => exact sameResult_insert idx obj
  | append obj =>
    -- Java's `add` answers `True`
    refine iff_of_false (fun hsame ↦ ?_) id
    have hvalue : (ListValue.bool true : ListValue Chr) = .none := hsame.1
    cases hvalue
  | extend lst =>
    cases lst with
    | none => exact iff_of_true ⟨trivial, rfl⟩ trivial
    | str s => exact iff_of_false (fun hsame ↦ hsame.1) id
    | list l => exact iff_of_true ⟨rfl, rfl⟩ trivial
  | pop idx =>
    refine iff_of_true ?_ trivial
    have hpop := (@sameResult_position _ xs _ (idx.getD (-1)) none).2.2.2
    cases idx with
    | none => exact hpop
    | some i => exact hpop
  | reverse => exact iff_of_true ⟨rfl, rfl⟩ trivial
  | remove obj => exact iff_of_true (sameResult_remove obj) trivial
  | index obj => exact sameResult_index obj
  | count obj => exact sameResult_count obj
  | iadd obj => exact sameResult_iadd obj

end Comparison

/-- **A wrapped list refines a Python list** over a history of operations, exactly if every
operation of the history is faithful to the contents at its time. -/
theorem listRefinesList_iff [DecidableEq Chr] (xs : List (Item Chr)) (ops : List (ListOp Chr)) :
    List.Forall₂ SameResult (trace ListCustomizer.step xs ops) (trace PyList.step xs ops) ↔
      Admissible ListOp.Faithful (fun xs op ↦ (ListCustomizer.step xs op).2) xs ops := by
  refine forall₂_trace_iff Eq ?_ ?_ ops xs xs rfl
  · rintro xs _ op rfl
    exact sameResult_iff op
  · rintro xs _ op rfl hop
    exact ((sameResult_iff op).2 hop).2

/-- The slice `[-2:]`. -/
def lastTwo : UnitSlice := ⟨⟨some (-2), none, none⟩, .inl rfl⟩

/-- The slice `[-2:]` of a list with one element is the list in Python, and out of bounds in Java;
`index` of what is not in the list is `-1` there. -/
theorem sliceBeyondStart :
    let xs : List (Item Char) := [some ['a']]
    (ListCustomizer.step xs (.getSlice lastTwo)).1 = .error .indexOutOfBounds ∧
      (PyList.step xs (.getSlice lastTwo)).1 = .ok (.items xs) ∧
      (ListCustomizer.step xs (.index none)).1 = .ok (.int (-1)) ∧
      (PyList.step xs (.index none)).1 = .error .valueError ∧
      ¬List.Forall₂ SameResult (trace ListCustomizer.step xs [.getSlice lastTwo])
        (trace PyList.step xs [.getSlice lastTwo]) := by
  refine ⟨rfl, rfl, rfl, rfl, fun h ↦ ?_⟩
  rw [trace_cons, trace_cons, List.forall₂_cons] at h
  exact h.1.1

end JPype
