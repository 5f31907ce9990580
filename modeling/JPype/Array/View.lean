import JPype.Array.Slice
import Mathlib.Data.List.Perm.Subperm

/-!
# Views of Java arrays

A Python array object holds a Java array and a `JPArray`: start, step and length of the part of
it that the object stands for. Slicing composes these numbers and never copies, so a slice of a
slice is one more `JPArray` over the same Java array. `slices_address` says that the numbers are
right: after any chain of slices the view reads and writes the positions that the same chain
selects from a list of all positions, and nothing else.

The arithmetic on `jsize` is exact here. Items are converted by the component type, which is a
parameter: what matters is where a converted item goes.
-/

namespace JPype

open Foundation

/-- A Java array. Its length is a nonnegative `jint`. -/
@[ext]
structure JavaArray (α : Type) where
  elements : List α
  length_le : elements.length ≤ 2147483647

namespace JavaArray

variable {α : Type}

/-- The element at an index that goes to the Java virtual machine. -/
def get (array : JavaArray α) (index : ℤ) : Except PyError α :=
  if 0 ≤ index then
    match array.elements[index.toNat]? with
    | some x => .ok x
    | none => .error .fault
  else .error .fault

/-- The array after one element is written. -/
def put (array : JavaArray α) (k : ℕ) (x : α) : JavaArray α where
  elements := array.elements.set k x
  length_le := by
    rw [List.length_set]
    exact array.length_le

/-- Stores an element at an index that goes to the Java virtual machine. -/
def store (array : JavaArray α) (index : ℤ) (x : α) : Except PyError (JavaArray α) :=
  if 0 ≤ index ∧ index < array.elements.length then .ok (array.put index.toNat x)
  else .error .fault

end JavaArray

/-- What the array operations take from the component type of an array. `Py` are the Python
objects, `α` the elements. -/
structure ComponentType (Py α : Type) where
  /-- Whether `setArrayRange` works on a copy of the array that is committed at the end. -/
  isPrimitive : Bool
  /-- `convertToPythonObject`, of an element. -/
  toPython : α → Py
  /-- The exception of a value that does not match: `"Unable to convert"` and, if primitive, the
  type. -/
  unableToConvert : String
  /-- Whether `findJavaConversion` reports at least `_implicit`. -/
  findJavaConversion : Py → Bool
  /-- `match.convert()`. -/
  convert : Py → Except PyError α
  /-- An item as `setArrayRange` of a primitive type reads it, from a sequence or a buffer. -/
  readItem : Py → Except PyError α

namespace ComponentType

variable {Py α : Type} (comp : ComponentType Py α)

/-- A value that is matched and then converted. -/
def matchConvert (val : Py) : Except PyError α :=
  if comp.findJavaConversion val then comp.convert val
  else .error (.typeError comp.unableToConvert)

/-- `getArrayItem`. -/
def getArrayItem (array : JavaArray α) (ndx : ℤ) : Except PyError Py :=
  (array.get ndx).map comp.toPython

/-- `setArrayItem`. -/
def setArrayItem (array : JavaArray α) (ndx : ℤ) (val : Py) : Except PyError (JavaArray α) := do
  let x ← comp.matchConvert val
  array.store ndx x

/-- The loop of `setArrayRange`: the array when it stops, and how it stops. -/
def storeItems (conv : Py → Except PyError α) (step : ℤ) :
    JavaArray α → ℤ → List Py → JavaArray α × Except PyError Unit
  | array, _, [] => (array, .ok ())
  | array, index, val :: vals =>
    match conv val >>= array.store index with
    | .error e => (array, .error e)
    | .ok array => storeItems conv step array (index + step) vals

/-- `setArrayRange`, of as many items as there are. An object array has its items matched
before the first one is stored; a primitive one is written back if no item fails. -/
def setArrayRange (array : JavaArray α) (start step : ℤ) (vals : List Py) :
    JavaArray α × Except PyError Unit :=
  if comp.isPrimitive then
    match storeItems comp.readItem step array start vals with
    | (array', .ok ()) => (array', .ok ())
    | (_, .error e) => (array, .error e)
  else if vals.all comp.findJavaConversion then
    storeItems comp.convert step array start vals
  else (array, .error (.typeError comp.unableToConvert))

/-- An item as `setArrayRange` converts it. -/
def convertItem (val : Py) : Except PyError α :=
  if comp.isPrimitive then comp.readItem val else comp.matchConvert val

end ComponentType

/-- The part of a Java array that a Python array object stands for. -/
structure JPArray where
  start : ℤ
  step : ℤ
  length : ℤ
  slice : Bool
  length_nonneg : 0 ≤ length

/-- A Python object that is assigned to items of an array. -/
structure Assigned (Py : Type) where
  object : Py
  /-- Its items, if it is a sequence. -/
  items : Option (List Py)
  /-- Whether it is an array object for the same Java array. -/
  sameArray : Bool

/-- A subscript: an object with `__index__`, a slice, or another object, given by the name of
its type. -/
inductive Subscript where
  | index (i : ℤ)
  | slice (s : PySlice)
  | other (typeName : String)

namespace JPArray

variable {Py α : Type}

/-- The constructor from a Java array. -/
def ofValue (value : JavaArray α) : JPArray where
  start := 0
  step := 1
  length := value.elements.length
  slice := false
  length_nonneg := Int.natCast_nonneg _

/-- The length that the slice constructor computes, by division that truncates. -/
def sliceLength (start stop step : ℤ) : ℤ :=
  if 0 < step then (stop - start - 1 + step).tdiv step else (stop - start + 1 + step).tdiv step

/-- The slice constructor. -/
def ofSlice (inst : JPArray) (start stop step : ℤ) : JPArray where
  start := inst.start + inst.step * start
  step := step * inst.step
  length :=
    if sliceLength start stop step < 0 then 0 else sliceLength start stop step
  slice := true
  length_nonneg := by split_ifs <;> omega

/-- `getLength`. -/
def getLength (self : JPArray) : ℤ :=
  self.length

/-- The index of an item in the view, counted from the front. -/
def fromFront (self : JPArray) (ndx : ℤ) : ℤ :=
  if ndx < 0 then ndx + self.length else ndx

/-- `getItem`. -/
def getItem (comp : ComponentType Py α) (self : JPArray) (array : JavaArray α) (ndx : ℤ) :
    Except PyError Py :=
  let ndx := self.fromFront ndx
  if self.length ≤ ndx ∨ ndx < 0 then .error (.indexError "array index out of bounds")
  else comp.getArrayItem array (self.start + ndx * self.step)

/-- `setItem`. -/
def setItem (comp : ComponentType Py α) (self : JPArray) (array : JavaArray α) (ndx : ℤ)
    (val : Py) : Except PyError (JavaArray α) :=
  let ndx := self.fromFront ndx
  if self.length ≤ ndx ∨ ndx < 0 then
    .error (.indexError "java array assignment out of bounds")
  else comp.setArrayItem array (self.start + ndx * self.step) val

/-- `setRange`. -/
def setRange (comp : ComponentType Py α) (self : JPArray) (array : JavaArray α)
    (start length step : ℤ) (val : Assigned Py) : JavaArray α × Except PyError Unit :=
  match val.items with
  | none => (array, .error (.typeError "can only assign a sequence"))
  | some vals =>
    if length ≠ vals.length then
      (array, .error (.valueError ("Slice assignment must be of equal lengths : " ++
        toString length ++ " != " ++ toString vals.length)))
    else comp.setArrayRange array (self.start + self.step * start) (self.step * step) vals

end JPArray

namespace PyJPArray

variable {Py α : Type}

/-- `PyJPArray_getItem` of a slice. An empty slice starts where the view starts. -/
def getSlice (self : JPArray) (s : PySlice) : Except PyError JPArray := do
  let (start, stop, step) ← s.unpack
  let (start, stop, slicelength) := PySlice.adjustIndices self.getLength start stop step
  if slicelength ≤ 0 then return self.ofSlice 0 0 1 else return self.ofSlice start stop step

/-- `PyNumber_AsSsize_t(item, PyExc_IndexError)`. -/
def asSsize (i : ℤ) : Except PyError ℤ :=
  if i < PySlice.ssizeMin ∨ PySlice.ssizeMax < i then
    .error (.indexError "cannot fit 'int' into an index-sized integer")
  else .ok i

/-- `PyJPArray_getItem`: an item, or a view. -/
def getItem (comp : ComponentType Py α) (self : JPArray) (array : JavaArray α) :
    Subscript → Except PyError (Py ⊕ JPArray)
  | .index i => do
    let i ← asSsize i
    return .inl (← self.getItem comp array i)
  | .slice s => do return .inr (← getSlice self s)
  | .other _ => .error (.typeError "Unsupported getItem type")

/-- `PyJPArray_assignSubscript`; no value means deletion. -/
def assignSubscript (comp : ComponentType Py α) (self : JPArray) (array : JavaArray α)
    (item : Subscript) (value : Option (Assigned Py)) : JavaArray α × Except PyError Unit :=
  match value with
  | none => (array, .error (.valueError "item deletion not supported"))
  | some value =>
    if value.sameArray then
      (array, .error (.valueError "self assignment not support currently"))
    else
      match item with
      | .index i =>
        match asSsize i >>= fun i ↦ self.setItem comp array i value.object with
        | .error e => (array, .error e)
        | .ok array => (array, .ok ())
      | .slice s =>
        match s.unpack with
        | .error e => (array, .error e)
        | .ok (start, stop, step) =>
          let (start, _, slicelength) := PySlice.adjustIndices self.getLength start stop step
          if slicelength ≤ 0 then (array, .ok ())
          else self.setRange comp array start slicelength step value
      | .other typeName =>
        (array, .error (.typeError
          ("Java array indices must be integers or slices, not '" ++ typeName ++ "'")))

/-- A chain of slices, `array[s₁][s₂]…`. -/
def getSlices (slices : List PySlice) (self : JPArray) : Except PyError JPArray :=
  slices.foldlM getSlice self

end PyJPArray

/-! ### The positions of a view -/

namespace JPArray

/-- The positions of the Java array that a view stands for. -/
def positions (self : JPArray) : List ℤ :=
  progression self.start self.step self.length.toNat

/-- A view stands for the positions `base` of a Java array of length `n`. -/
structure Tracks (n : ℕ) (view : JPArray) (base : List ℕ) : Prop where
  positions_eq : view.positions = base.map (↑)
  step_ne_zero : view.step ≠ 0
  lt_of_mem : ∀ k ∈ base, k < n

namespace Tracks

variable {n : ℕ} {view : JPArray} {base : List ℕ}

theorem length_eq (h : view.Tracks n base) : view.length = base.length := by
  have hlen := congrArg List.length h.positions_eq
  rw [positions, length_progression, List.length_map] at hlen
  have := view.length_nonneg
  omega

theorem nodup (h : view.Tracks n base) : base.Nodup := by
  refine List.Nodup.of_map ((↑) : ℕ → ℤ) ?_
  rw [← h.positions_eq]
  exact nodup_progression h.step_ne_zero _ _

theorem length_le (h : view.Tracks n base) : base.length ≤ n := by
  have hsub : base ⊆ List.range n := fun k hk ↦ List.mem_range.2 (h.lt_of_mem k hk)
  rw [← List.length_range (n := n)]
  exact (List.subperm_of_subset h.nodup hsub).length_le

theorem cast_getElem {k p : ℕ} (h : view.Tracks n base) (hk : base[k]? = some p) :
    (p : ℤ) = view.start + k * view.step := by
  obtain ⟨hlt, -⟩ := List.getElem?_eq_some_iff.1 hk
  have hpos : view.positions[k]? = some (p : ℤ) := by
    rw [h.positions_eq, List.getElem?_map, hk, Option.map_some]
  rw [positions, getElem?_progression (by have := h.length_eq; omega)] at hpos
  exact (Option.some.inj hpos).symm

theorem ofValue {α : Type} (array : JavaArray α) :
    (JPArray.ofValue array).Tracks array.elements.length
      (List.range array.elements.length) where
  positions_eq := progression_zero_one _
  step_ne_zero := one_ne_zero
  lt_of_mem _ := List.mem_range.1

end Tracks

theorem toNat_sliceLength {start stop step : ℤ} (hs : step ≠ 0) :
    (sliceLength start stop step).toNat = rangeLength start stop step := by
  rw [sliceLength]
  split_ifs with hpos
  · rw [rangeLength_of_pos hpos, multiplesBelow_eq_tdiv hpos]
    congr 2
    ring
  · have hneg : step < 0 := by omega
    rw [rangeLength_of_neg hneg, multiplesBelow_eq_tdiv (neg_pos.2 hneg), ← Int.neg_tdiv_neg]
    congr 2
    ring

theorem positions_ofSlice (inst : JPArray) {start stop step : ℤ} (hs : step ≠ 0) :
    (inst.ofSlice start stop step).positions =
      progression (inst.start + inst.step * start) (step * inst.step)
        (rangeLength start stop step) := by
  have hlen : (inst.ofSlice start stop step).length.toNat = rangeLength start stop step := by
    rw [← toNat_sliceLength hs]
    simp only [ofSlice]
    split_ifs <;> omega
  rw [positions, hlen]
  rfl

/-- What a slice selects of the positions of a view. -/
theorem Tracks.select_eq {n : ℕ} {view : JPArray} {base : List ℕ} (h : view.Tracks n base)
    (hmax : view.length ≤ PySlice.ssizeMax) {s : PySlice} (hs : s.step ≠ some 0) :
    (s.select base).map (↑) =
      progression (view.start + view.step * s.startOf view.length) (s.unpackStep * view.step)
        (s.count view.length) := by
  have hlen := h.length_eq
  rw [← map_progression, s.progression_unpackStep view.length_nonneg hmax, hlen]
  refine PySlice.map_select hs _ _ fun k hk ↦ ?_
  rw [List.getElem?_eq_getElem hk, Option.map_some,
    h.cast_getElem (List.getElem?_eq_getElem hk)]

theorem getSlice_eq {self : JPArray} (hmax : self.length ≤ PySlice.ssizeMax) {s : PySlice}
    (hs : s.step ≠ some 0) :
    PyJPArray.getSlice self s =
      if (s.count self.length : ℤ) ≤ 0 then .ok (self.ofSlice 0 0 1)
      else .ok (self.ofSlice (s.startOf self.length) (s.stopOf self.length) s.unpackStep) := by
  obtain ⟨start, stop, hunpack, hadjust⟩ :=
    PySlice.unpack_adjustIndices hs self.length_nonneg hmax
  rw [PyJPArray.getSlice, hunpack, getLength]
  show (match PySlice.adjustIndices self.length start stop s.unpackStep with
    | (start, stop, slicelength) => if slicelength ≤ 0 then Except.ok (self.ofSlice 0 0 1)
      else Except.ok (self.ofSlice start stop s.unpackStep)) = _
  rw [hadjust]

theorem Tracks.length_le_ssizeMax {n : ℕ} {view : JPArray} {base : List ℕ}
    (h : view.Tracks n base) (hn : n ≤ 2147483647) : view.length ≤ PySlice.ssizeMax := by
  have hlen := h.length_eq
  have hle := h.length_le
  rw [PySlice.ssizeMax]
  omega

/-- **One slice**: the view stands for what the slice selects of the positions. -/
theorem Tracks.getSlice {n : ℕ} {view : JPArray} {base : List ℕ} (h : view.Tracks n base)
    (hn : n ≤ 2147483647) {s : PySlice} (hs : s.step ≠ some 0) :
    ∃ view', PyJPArray.getSlice view s = .ok view' ∧ view'.Tracks n (s.select base) := by
  have hmax := h.length_le_ssizeMax hn
  have hne : s.unpackStep ≠ 0 := fun h0 ↦ hs (s.unpackStep_spec.1.1 h0)
  have hcount := PySlice.length_select hs base
  have hlt : ∀ k ∈ s.select base, k < n := fun k hk ↦ h.lt_of_mem k (s.select_subset base hk)
  rw [getSlice_eq hmax hs]
  split_ifs with hzero
  · rw [h.length_eq] at hzero
    have hnil : s.select base = [] := List.length_eq_zero_iff.1 (by omega)
    refine ⟨_, rfl, ?_, mul_ne_zero one_ne_zero h.step_ne_zero, hlt⟩
    rw [hnil, positions_ofSlice view one_ne_zero]
    rfl
  · refine ⟨_, rfl, ?_, mul_ne_zero hne h.step_ne_zero, hlt⟩
    rw [positions_ofSlice view hne, s.rangeLength_unpackStep view.length_nonneg hmax,
      h.select_eq hmax hs]

end JPArray

/-! ### Items of a view -/

/-- `l[i]` for a Python list `l`. -/
def pyIndex {β : Type*} (l : List β) (i : ℤ) : Option β :=
  let i := if i < 0 then i + l.length else i
  if i < 0 then none else l[i.toNat]?

/-- The positions `base` of a list hold the items `xs` in order, and every other position holds
what it held. -/
structure Writes {α : Type*} (base : List ℕ) (xs before after : List α) : Prop where
  length_eq : after.length = before.length
  written : ∀ j k : ℕ, base[j]? = some k → after[k]? = xs[j]?
  frame : ∀ k, k ∉ base → after[k]? = before[k]?

section Items

variable {Py α : Type}

theorem JavaArray.get_natCast {array : JavaArray α} {k : ℕ} {x : α}
    (hk : array.elements[k]? = some x) : array.get k = .ok x := by
  rw [JavaArray.get, if_pos (Int.natCast_nonneg k), Int.toNat_natCast, hk]

theorem JavaArray.store_natCast {array : JavaArray α} {k : ℕ} (hk : k < array.elements.length)
    (x : α) : array.store k x = .ok (array.put k x) := by
  rw [JavaArray.store, if_pos ⟨Int.natCast_nonneg k, by omega⟩, Int.toNat_natCast]

/-- Both ways of reading an index agree on what is inside. -/
theorem pyIndex_eq {view : JPArray} {n : ℕ} {base : List ℕ} (h : view.Tracks n base) (i : ℤ) :
    (view.length ≤ view.fromFront i ∨ view.fromFront i < 0) ∧ pyIndex base i = none ∨
      ∃ k : ℕ, ¬(view.length ≤ view.fromFront i ∨ view.fromFront i < 0) ∧
        pyIndex base i = some k ∧ k < n ∧ view.start + view.fromFront i * view.step = k := by
  have hlen := h.length_eq
  have hfront : view.fromFront i = if i < 0 then i + base.length else i := by
    rw [JPArray.fromFront, hlen]
  rw [pyIndex, ← hfront, hlen]
  obtain hneg | hnonneg := lt_or_ge (view.fromFront i) 0
  · exact .inl ⟨.inr hneg, if_pos hneg⟩
  · obtain ⟨j, hj⟩ := Int.eq_ofNat_of_zero_le hnonneg
    rw [hj, Int.toNat_natCast, if_neg (by omega)]
    cases hk : base[j]? with
    | none => exact .inl ⟨.inl (by have := List.getElem?_eq_none_iff.1 hk; omega), rfl⟩
    | some k =>
      obtain ⟨hjl, -⟩ := List.getElem?_eq_some_iff.1 hk
      exact .inr ⟨k, by omega, rfl, h.lt_of_mem k (List.mem_of_getElem? hk),
        (h.cast_getElem hk).symm⟩

/-- **`getItem`** reads the element at the position selected. -/
theorem JPArray.Tracks.getItem_eq (comp : ComponentType Py α) {array : JavaArray α}
    {view : JPArray} {base : List ℕ} (h : view.Tracks array.elements.length base) (i : ℤ) :
    view.getItem comp array i =
      match (pyIndex base i).bind (array.elements[·]?) with
      | some x => .ok (comp.toPython x)
      | none => .error (.indexError "array index out of bounds") := by
  obtain ⟨hout, hnone⟩ | ⟨k, hin, hsome, hk, haddr⟩ := pyIndex_eq h i
  · rw [JPArray.getItem, if_pos hout, hnone, Option.bind_none]
  · have hx := List.getElem?_eq_getElem hk
    rw [JPArray.getItem, if_neg hin, hsome, Option.bind_some, hx, haddr,
      ComponentType.getArrayItem, JavaArray.get_natCast hx]
    rfl

/-- **`setItem`** converts the value and writes it at the position selected. -/
theorem JPArray.Tracks.setItem_eq (comp : ComponentType Py α) {array : JavaArray α}
    {view : JPArray} {base : List ℕ} (h : view.Tracks array.elements.length base) (i : ℤ)
    (val : Py) :
    view.setItem comp array i val =
      match pyIndex base i with
      | some k => (comp.matchConvert val).map (array.put k)
      | none => .error (.indexError "java array assignment out of bounds") := by
  obtain ⟨hout, hnone⟩ | ⟨k, hin, hsome, hk, haddr⟩ := pyIndex_eq h i
  · rw [JPArray.setItem, if_pos hout, hnone]
  · rw [JPArray.setItem, if_neg hin, hsome, haddr, ComponentType.setArrayItem]
    cases comp.matchConvert val with
    | error e => rfl
    | ok x => exact JavaArray.store_natCast hk x

theorem Writes.nil (l : List α) : Writes [] [] l l where
  length_eq := rfl
  written j k hj := by cases hj
  frame _ _ := rfl

theorem Writes.cons {k : ℕ} {base : List ℕ} {x : α} {xs before after : List α}
    (hk : k < before.length) (hnew : k ∉ base) (h : Writes base xs (before.set k x) after) :
    Writes (k :: base) (x :: xs) before after where
  length_eq := by rw [h.length_eq, List.length_set]
  written j p hj := by
    cases j with
    | zero =>
      obtain rfl : k = p := Option.some.inj hj
      rw [h.frame k hnew, List.getElem?_set_self hk]
      rfl
    | succ j => exact h.written j p hj
  frame p hp := by
    have hne : k ≠ p := fun he ↦ hp (he ▸ List.mem_cons_self)
    rw [h.frame p fun hmem ↦ hp (List.mem_cons_of_mem k hmem), List.getElem?_set_ne hne]

/-- The loop of `setArrayRange` writes the items at the positions of its progression. -/
theorem ComponentType.storeItems_writes {conv : Py → Except PyError α} {step : ℤ}
    {vals : List Py} {xs : List α} (hconv : vals.Forall₂ (fun val x ↦ conv val = .ok x) xs) :
    ∀ {base : List ℕ} {index : ℤ} {array : JavaArray α},
      base.map (↑) = progression index step vals.length → base.Nodup →
      (∀ k ∈ base, k < array.elements.length) →
      ∃ array', storeItems conv step array index vals = (array', .ok ()) ∧
        Writes base xs array.elements array'.elements := by
  induction hconv with
  | nil =>
    intro base index array hbase _ _
    obtain rfl : base = [] := List.map_eq_nil_iff.1 hbase
    exact ⟨array, rfl, .nil _⟩
  | @cons val x vals xs hval _ ih =>
    intro base index array hbase hnodup hlt
    rw [List.length_cons, progression_succ] at hbase
    obtain ⟨k, base, rfl, rfl, hbase⟩ := List.map_eq_cons_iff.1 hbase
    obtain ⟨hnew, hnodup⟩ := List.nodup_cons.1 hnodup
    have hk : k < array.elements.length := hlt k List.mem_cons_self
    have hlt' : ∀ p ∈ base, p < (array.put k x).elements.length := fun p hp ↦ by
      rw [JavaArray.put, List.length_set]
      exact hlt p (List.mem_cons_of_mem k hp)
    obtain ⟨array', hstore, hwrites⟩ := ih hbase hnodup hlt'
    refine ⟨array', ?_, hwrites.cons hk hnew⟩
    rw [storeItems, hval]
    show (match array.store k x with
      | .error e => _
      | .ok array => _) = _
    rw [JavaArray.store_natCast hk]
    exact hstore

/-- `setArrayRange`, of items that all convert. -/
theorem ComponentType.setArrayRange_writes (comp : ComponentType Py α) {array : JavaArray α}
    {start step : ℤ} {vals : List Py} {xs : List α} {base : List ℕ}
    (hconv : vals.Forall₂ (fun val x ↦ comp.convertItem val = .ok x) xs)
    (hbase : base.map (↑) = progression start step vals.length) (hnodup : base.Nodup)
    (hlt : ∀ k ∈ base, k < array.elements.length) :
    ∃ array', comp.setArrayRange array start step vals = (array', .ok ()) ∧
      Writes base xs array.elements array'.elements := by
  obtain hprim | hobject := Bool.eq_false_or_eq_true comp.isPrimitive
  · have hread : vals.Forall₂ (fun val x ↦ comp.readItem val = .ok x) xs :=
      hconv.imp fun val x h ↦ by rwa [convertItem, if_pos hprim] at h
    obtain ⟨array', hstore, hwrites⟩ := storeItems_writes hread hbase hnodup hlt
    refine ⟨array', ?_, hwrites⟩
    rw [setArrayRange, if_pos hprim, hstore]
  · have hmatch : vals.Forall₂ (fun val x ↦ comp.matchConvert val = .ok x) xs :=
      hconv.imp fun val x h ↦ by
        rwa [convertItem, if_neg (Bool.eq_false_iff.1 hobject)] at h
    have hboth : vals.Forall₂
        (fun val x ↦ comp.findJavaConversion val = true ∧ comp.convert val = .ok x) xs :=
      hmatch.imp fun val x h ↦ by
        rw [matchConvert] at h
        split_ifs at h with hfind
        exact ⟨hfind, h⟩
    have hall : vals.all comp.findJavaConversion = true := by
      refine List.all_eq_true.2 fun val hval ↦ ?_
      obtain ⟨⟨i, hi⟩, rfl⟩ := List.mem_iff_get.1 hval
      exact (hboth.get hi (hboth.length_eq ▸ hi)).1
    obtain ⟨array', hstore, hwrites⟩ :=
      storeItems_writes (hboth.imp fun _ _ h ↦ h.2) hbase hnodup hlt
    refine ⟨array', ?_, hwrites⟩
    rw [setArrayRange, if_neg (Bool.eq_false_iff.1 hobject), if_pos hall, hstore]

theorem ComponentType.storeItems_ok {conv : Py → Except PyError α} {step : ℤ}
    {vals : List Py} : ∀ {array array' : JavaArray α} {index : ℤ},
      storeItems conv step array index vals = (array', .ok ()) →
      ∃ xs, vals.Forall₂ (fun val x ↦ conv val = .ok x) xs := by
  induction vals with
  | nil => exact fun _ ↦ ⟨[], .nil⟩
  | cons val vals ih =>
    intro array array' index h
    rw [storeItems] at h
    cases hval : conv val with
    | error e =>
      rw [hval] at h
      cases h
    | ok x =>
      rw [hval] at h
      cases hstore : array.store index x with
      | error e =>
        change (match array.store index x with
          | .error e => _
          | .ok array => _) = _ at h
        rw [hstore] at h
        cases h
      | ok array₁ =>
        change (match array.store index x with
          | .error e => _
          | .ok array => _) = _ at h
        rw [hstore] at h
        obtain ⟨xs, hxs⟩ := ih h
        exact ⟨x :: xs, .cons hval hxs⟩

/-- `setArrayRange` succeeds only if all items convert. -/
theorem ComponentType.setArrayRange_ok {comp : ComponentType Py α} {array array' : JavaArray α}
    {start step : ℤ} {vals : List Py}
    (h : comp.setArrayRange array start step vals = (array', .ok ())) :
    ∃ xs, vals.Forall₂ (fun val x ↦ comp.convertItem val = .ok x) xs := by
  rw [setArrayRange] at h
  split_ifs at h with hprim hall
  · cases hstore : storeItems comp.readItem step array start vals with
    | mk array₁ result =>
      cases result with
      | error e =>
        rw [hstore] at h
        cases h
      | ok u =>
        obtain ⟨xs, hxs⟩ := storeItems_ok hstore
        exact ⟨xs, hxs.imp fun val x hx ↦ by rwa [convertItem, if_pos hprim]⟩
  · obtain ⟨xs, hxs⟩ := storeItems_ok h
    refine ⟨xs, List.forall₂_iff_get.2 ⟨hxs.length_eq, fun i hi hi' ↦ ?_⟩⟩
    have hfind := List.all_eq_true.1 hall _ (List.get_mem vals ⟨i, hi⟩)
    rw [convertItem, if_neg hprim, matchConvert, if_pos hfind]
    exact hxs.get hi hi'
  · cases h

/-- `setArrayRange`, of items for the positions that a slice selects of those of the view. -/
theorem JPArray.Tracks.setArrayRange_writes (comp : ComponentType Py α) {array : JavaArray α}
    {view : JPArray} {base : List ℕ} (h : view.Tracks array.elements.length base) {s : PySlice}
    (hs : s.step ≠ some 0) {vals : List Py} {xs : List α}
    (hconv : vals.Forall₂ (fun val x ↦ comp.convertItem val = .ok x) xs)
    (hlen : vals.length = (s.select base).length) :
    ∃ array', comp.setArrayRange array (view.start + view.step * s.startOf view.length)
        (view.step * s.unpackStep) vals = (array', .ok ()) ∧
      Writes (s.select base) xs array.elements array'.elements := by
  have hnodup : (s.select base).Nodup := by
    obtain ⟨view', -, hview⟩ := h.getSlice array.length_le hs
    exact hview.nodup
  have hbase : (s.select base).map (↑) =
      progression (view.start + view.step * s.startOf view.length)
        (view.step * s.unpackStep) vals.length := by
    rw [h.select_eq (h.length_le_ssizeMax array.length_le) hs, hlen, PySlice.length_select hs,
      h.length_eq, mul_comm s.unpackStep]
  exact comp.setArrayRange_writes hconv hbase hnodup
    fun k hk ↦ h.lt_of_mem k (s.select_subset base hk)

/-- **`setRange`**: assigning to a slice of a view writes the positions that the slice selects
of the positions of the view. -/
theorem JPArray.Tracks.assignSubscript_slice (comp : ComponentType Py α) {array : JavaArray α}
    {view : JPArray} {base : List ℕ} (h : view.Tracks array.elements.length base) {s : PySlice}
    (hs : s.step ≠ some 0) {val : Assigned Py} {vals : List Py} {xs : List α}
    (hother : val.sameArray = false) (hitems : val.items = some vals)
    (hconv : vals.Forall₂ (fun val x ↦ comp.convertItem val = .ok x) xs)
    (hlen : vals.length = (s.select base).length) :
    ∃ array', PyJPArray.assignSubscript comp view array (.slice s) (some val) =
        (array', .ok ()) ∧
      Writes (s.select base) xs array.elements array'.elements := by
  have hmax := h.length_le_ssizeMax array.length_le
  obtain ⟨start, stop, hunpack, hadjust⟩ :=
    PySlice.unpack_adjustIndices hs view.length_nonneg hmax
  have hcount : (s.select base).length = s.count view.length := by
    rw [PySlice.length_select hs, h.length_eq]
  have hassign : PyJPArray.assignSubscript comp view array (.slice s) (some val) =
      if (s.count view.length : ℤ) ≤ 0 then (array, .ok ())
      else view.setRange comp array (s.startOf view.length) (s.count view.length)
        s.unpackStep val := by
    simp only [PyJPArray.assignSubscript, hother, hunpack, JPArray.getLength, hadjust,
      Bool.false_eq_true, if_false]
  rw [hassign]
  split_ifs with hzero
  · have hnil : s.select base = [] := List.length_eq_zero_iff.1 (by omega)
    rw [hnil] at hlen ⊢
    obtain rfl := List.length_eq_zero_iff.1 hlen
    obtain rfl := List.forall₂_nil_left_iff.1 hconv
    exact ⟨array, rfl, .nil _⟩
  · obtain ⟨array', hrange, hwrites⟩ := h.setArrayRange_writes comp hs hconv hlen
    refine ⟨array', ?_, hwrites⟩
    rw [JPArray.setRange, hitems]
    show (if (s.count view.length : ℤ) ≠ vals.length then _ else _) = _
    rw [if_neg (not_not.2 (by omega)), hrange]

theorem pyIndex_map {β γ : Type*} (f : β → γ) (l : List β) (i : ℤ) :
    pyIndex (l.map f) i = (pyIndex l i).map f := by
  simp only [pyIndex, List.length_map, List.getElem?_map]
  generalize (if i < 0 then i + (l.length : ℤ) else i) = j
  split_ifs <;> rfl

end Items

/-! ### Chains of slices -/

/-- A step of a chain: slicing the view and slicing the list of its positions fail alike or
lead to a view of the positions selected. -/
theorem JPArray.Tracks.agree_getSlice {n : ℕ} {view : JPArray} {base : List ℕ}
    (h : view.Tracks n base) (hn : n ≤ 2147483647) (s : PySlice) :
    Agree (fun view base ↦ view.Tracks n base) (PyJPArray.getSlice view s) (s.of base) := by
  by_cases hs : s.step = some 0
  · rw [PySlice.of, if_pos hs, PyJPArray.getSlice, PySlice.unpack_of_step_zero hs]
    exact .error _
  · obtain ⟨view', hslice, hview⟩ := h.getSlice hn hs
    rw [PySlice.of, if_neg hs, hslice]
    exact .ok hview

theorem JPArray.Tracks.agree_getSlices {n : ℕ} (hn : n ≤ 2147483647) (slices : List PySlice) :
    ∀ {view : JPArray} {base : List ℕ}, view.Tracks n base →
      Agree (fun view base ↦ view.Tracks n base) (PyJPArray.getSlices slices view)
        (PySlice.chain slices base) := by
  induction slices with
  | nil => exact fun h ↦ .ok h
  | cons s slices ih => exact fun h ↦ (h.agree_getSlice hn s).bind fun _ _ h' ↦ ih h'

theorem map_range_getElem? {α : Type*} (l : List α) :
    (List.range l.length).map (l[·]?) = l.map some := by
  refine List.ext_getElem? fun k ↦ ?_
  rw [List.getElem?_map, List.getElem?_map]
  obtain hk | hk := lt_or_ge k l.length
  · rw [List.getElem?_range hk, List.getElem?_eq_getElem hk, Option.map_some, Option.map_some,
      List.getElem?_eq_getElem hk]
  · rw [List.getElem?_eq_none hk, List.getElem?_eq_none (by rwa [List.length_range])]
    rfl

/-- The chain on the elements is the chain on the positions, with each position looked up. -/
theorem PySlice.chain_elements {α : Type} (slices : List PySlice) (elements : List α) :
    (chain slices elements).map (List.map some) =
      (chain slices (List.range elements.length)).map (List.map (elements[·]?)) := by
  rw [← chain_map, ← chain_map, map_range_getElem?]

section Chains

variable {Py α : Type}

/-- A view over a Java array behaves like the list `items`, each item of which is the element
at the position in `base`. -/
structure JPArray.Addresses (comp : ComponentType Py α) (array : JavaArray α) (view : JPArray)
    (base : List ℕ) (items : List α) : Prop where
  getLength : view.getLength = items.length
  getItem : ∀ i, view.getItem comp array i =
    match pyIndex items i with
    | some x => .ok (comp.toPython x)
    | none => .error (.indexError "array index out of bounds")
  setItem : ∀ i val, view.setItem comp array i val =
    match pyIndex base i with
    | some k => (comp.matchConvert val).map (array.put k)
    | none => .error (.indexError "java array assignment out of bounds")
  setRange : ∀ (s : PySlice) (val : Assigned Py) (vals : List Py) (xs : List α),
    s.step ≠ some 0 → val.sameArray = false → val.items = some vals →
    vals.Forall₂ (fun val x ↦ comp.convertItem val = .ok x) xs →
    vals.length = (s.select base).length →
    ∃ array', PyJPArray.assignSubscript comp view array (.slice s) (some val) =
        (array', .ok ()) ∧
      Writes (s.select base) xs array.elements array'.elements

theorem JPArray.Tracks.addresses (comp : ComponentType Py α) {array : JavaArray α}
    {view : JPArray} {base : List ℕ} (h : view.Tracks array.elements.length base)
    {items : List α} (hitems : items.map some = base.map (array.elements[·]?)) :
    view.Addresses comp array base items where
  getLength := by
    have hlen := congrArg List.length hitems
    rw [List.length_map, List.length_map] at hlen
    rw [JPArray.getLength, h.length_eq, hlen]
  getItem i := by
    have hindex : (pyIndex base i).bind (array.elements[·]?) = pyIndex items i := by
      have hmap := congrArg (pyIndex · i) hitems
      simp only [pyIndex_map] at hmap
      cases hb : pyIndex base i <;> cases hi : pyIndex items i <;> rw [hb, hi] at hmap
      · rfl
      · cases hmap
      · cases hmap
      · exact (Option.some.inj hmap).symm
    rw [h.getItem_eq comp, hindex]
  setItem := h.setItem_eq comp
  setRange _ _ _ _ hs hother hval hconv hlen :=
    h.assignSubscript_slice comp hs hother hval hconv hlen

/-- An index that does not fit `Py_ssize_t` is outside every view. -/
theorem pyIndex_of_not_ssize {β : Type*} {l : List β} (hl : l.length ≤ 2147483647) {i : ℤ}
    (hi : i < PySlice.ssizeMin ∨ PySlice.ssizeMax < i) : pyIndex l i = none := by
  simp only [PySlice.ssizeMin, PySlice.ssizeMax] at hi
  simp only [pyIndex]
  split_ifs
  · rfl
  · omega
  · exact List.getElem?_eq_none (by omega)

/-- The subscript `view[i]` of Python, for any integer. -/
theorem JPArray.Addresses.getItem_index {comp : ComponentType Py α} {array : JavaArray α}
    {view : JPArray} {base : List ℕ} {items : List α}
    (h : view.Addresses comp array base items) (hl : items.length ≤ 2147483647) (i : ℤ) :
    match pyIndex items i with
    | some x => PyJPArray.getItem comp view array (.index i) = .ok (.inl (comp.toPython x))
    | none => ∃ message, PyJPArray.getItem comp view array (.index i) =
        .error (.indexError message) := by
  have hgetItem : PyJPArray.getItem comp view array (.index i) =
      PyJPArray.asSsize i >>= fun i ↦ (view.getItem comp array i).map Sum.inl := by
    rw [PyJPArray.getItem]
    cases PyJPArray.asSsize i with
    | error e => rfl
    | ok i => exact (map_eq_pure_bind Sum.inl (view.getItem comp array i)).symm
  rw [hgetItem, PyJPArray.asSsize]
  split_ifs with hi
  · rw [pyIndex_of_not_ssize hl hi]
    exact ⟨_, rfl⟩
  · show match pyIndex items i with
      | some x => (view.getItem comp array i).map Sum.inl = .ok (.inl (comp.toPython x))
      | none => ∃ message, (view.getItem comp array i).map Sum.inl =
          (.error (.indexError message) : Except PyError (Py ⊕ JPArray))
    rw [h.getItem]
    cases pyIndex items i with
    | some x => rfl
    | none => exact ⟨_, rfl⟩

/-- **Chains of slices address the right elements.** Slicing a Java array fails when slicing a
list does; else the view behaves like the list that the same chain leaves of the elements, and
reads and writes at the positions that the chain leaves of all positions. -/
theorem slices_address (comp : ComponentType Py α) (array : JavaArray α)
    (slices : List PySlice) :
    match PyJPArray.getSlices slices (JPArray.ofValue array) with
    | .error e => PySlice.chain slices array.elements = .error e
    | .ok view => ∃ base items,
        PySlice.chain slices (List.range array.elements.length) = .ok base ∧
        PySlice.chain slices array.elements = .ok items ∧
        view.Addresses comp array base items := by
  have hagree := JPArray.Tracks.agree_getSlices array.length_le slices (.ofValue array)
  have helements := PySlice.chain_elements slices array.elements
  revert hagree helements
  generalize PyJPArray.getSlices slices (JPArray.ofValue array) = views
  generalize PySlice.chain slices (List.range array.elements.length) = bases
  generalize PySlice.chain slices array.elements = lists
  intro hagree helements
  cases hagree with
  | error e =>
    cases lists with
    | error e' =>
      obtain rfl : e' = e := Except.error.inj helements
      rfl
    | ok items => cases helements
  | @ok view base h =>
    cases lists with
    | error e => cases helements
    | ok items => exact ⟨base, items, rfl, rfl, h.addresses comp (Except.ok.inj helements)⟩

end Chains

end JPype
