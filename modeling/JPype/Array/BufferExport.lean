import JPype.Array.Handover
import JPype.Array.Rectangular
import JPype.Java.Reflection
import Mathlib.Algebra.Order.BigOperators.GroupWithZero.List

/-!
# Buffers of arrays of several dimensions

The buffer of a primitive array of several dimensions is a copy. `PyJPArray_getBuffer` clones a
slice, lets Java collect the innermost arrays, and copies these one after the other into fresh
memory, with row-major strides. What is in memory is the slice already; `JPArrayView` then still
moves the start of the buffer by the start of the slice. The copy keeps its place in a C `int`,
and a view that is still exported is exported again as it is. `export_iff` has the three
conditions under which the buffer shows the slice.
-/

namespace JPype

open Foundation

namespace PrimitiveType

/-- `getItemSize`. -/
def getItemSize : PrimitiveType → ℕ
  | boolean => 1
  | char => 2
  | byte => 1
  | short => 2
  | int => 4
  | long => 8
  | float => 4
  | double => 8

/-- `getBufferFormat`. -/
def getBufferFormat : PrimitiveType → String
  | boolean => "?"
  | char => "H"
  | byte => "b"
  | short => "h"
  | int => "=i"
  | long => "=q"
  | float => "f"
  | double => "d"

theorem getItemSize_pos (type : PrimitiveType) : 0 < type.getItemSize := by
  cases type <;> decide

end PrimitiveType

/-- The fields of a `Py_buffer`; addresses are relative to the memory block of the view. A field
that is not requested is null. -/
structure PyBuffer where
  buf : ℤ
  len : ℕ
  itemsize : ℕ
  ndim : ℕ
  shape : Option (List ℕ)
  strides : Option (List ℕ)
  format : Option String
  readonly : Bool

/-- A `JPArrayView` made from a collection: a memory block of `size` bytes, and the buffer. Where
no item has been written the memory is indeterminate. -/
structure JPArrayView (α : Type) where
  shape : List ℕ
  strides : List ℕ
  memory : ℤ → Option α
  size : ℕ
  buffer : PyBuffer
  refCount : ℕ

variable {Cls α : Type}

namespace JPArrayView

/-- The value of an expression of type `int`. -/
def toInt32 (x : ℤ) : ℤ :=
  Int.bmod x 4294967296

/-- `copyElements`: the elements of an array, from an offset on. -/
def copyElements (itemsize : ℕ) (memory : ℤ → Option α) (offset : ℤ) (part : List α) :
    ℤ → Option α :=
  fun address ↦
    let k := (address - offset) / itemsize
    if (address - offset) % itemsize = 0 ∧ 0 ≤ k ∧ k < part.length then part[k.toNat]?
    else memory address

/-- The loop over the parts of a collection, each of which has `last` elements. -/
def copyParts (itemsize last : ℕ) : (ℤ → Option α) → ℤ → List (List α) → ℤ → Option α
  | memory, _, [] => memory
  | memory, offset, part :: parts =>
    copyParts itemsize last (copyElements itemsize memory offset (part.take last))
      (toInt32 (offset + toInt32 (itemsize * last))) parts

/-- The loop over the dimensions that computes the strides, from the last one on. -/
def computeStrides (itemsize : ℕ) (shape : List ℕ) : ℕ × List ℕ :=
  shape.foldr (fun n (stride, strides) ↦ (stride * n, stride :: strides)) (itemsize, [])

/-- The constructor from a collection. A size that `Py_ssize_t` does not hold is refused. -/
def ofCollection (type : PrimitiveType) (array : JPArray)
    (collection : JPypeContext.Collection α) : Except PyError (JPArrayView α) :=
  let itemsize := type.getItemSize
  let shape := collection.shape
  let sz := shape.foldl (· * ·) itemsize
  let strides := (computeStrides itemsize shape).2
  if PySlice.ssizeMax < sz then .error (.bufferError "Java array view failed")
  else
    .ok {
      shape := shape
      strides := strides
      memory := copyParts itemsize (shape.getLastD 0) (fun _ ↦ none) 0 collection.parts
      size := sz
      buffer := {
        buf := itemsize * array.start
        len := sz
        itemsize := itemsize
        ndim := shape.length
        shape := some shape
        strides := some strides
        format := some type.getBufferFormat
        readonly := true }
      refCount := 0 }

end JPArrayView

/-- `JPArray::clone`. -/
def JPArray.clone {Py : Type} (comp : ComponentType Py α) (zero : α) (obj : ArrayObject Cls α) :
    Except PyError (JavaArray α) := do
  let out ← JavaArray.newArray zero obj.array.getLength
  let items ← obj.items comp
  let (out, result) := comp.setArrayRange out 0 1 items
  result
  return out

/-- The component type of an array of arrays. A row is read as an array object of its class
(`None` if it is null), which matches exactly and converts to the row. -/
def rowComponent (d : ℕ) : ComponentType (Option (Rows α d)) (Option (Rows α d)) where
  isPrimitive := false
  toPython row := row
  unableToConvert := "Unable to convert"
  findJavaConversion _ := true
  convert := .ok
  readItem := .ok

/-- `PyBUF_WRITEABLE`. -/
def pyBufWriteable : ℕ := 0x1

/-- `PyBUF_FORMAT`. -/
def pyBufFormat : ℕ := 0x4

/-- `PyBUF_ND`. -/
def pyBufNd : ℕ := 0x8

/-- `PyBUF_STRIDES`. -/
def pyBufStrides : ℕ := 0x18

/-- `(flags & bits) == bits`. -/
def requested (flags bits : ℕ) : Bool :=
  flags &&& bits == bits

/-- The buffer without the fields that are not requested. -/
def PyBuffer.restrict (buffer : PyBuffer) (flags : ℕ) : PyBuffer :=
  { buffer with
    strides := if requested flags pyBufStrides then buffer.strides else none
    shape := if requested flags pyBufNd then buffer.shape else none
    format := if requested flags pyBufFormat then buffer.format else none }

/-- `collectRectangular`, with its failures as `PyJPArray_getBuffer` reports them. -/
def PyJPArray.collect (d : ℕ) (o : Rows α d) : Except PyError (JPypeContext.Collection α) :=
  match JPypeContext.collectRectangular d o with
  | .ok result => .ok result
  | .error .nullPointerException => .error (.bufferError "Problem in Java buffer extraction")
  | .error .notRectangular =>
    .error (.bufferError "Java array buffer is not rectangular primitives")

/-- The Java array that is exported: a slice is cloned. -/
def PyJPArray.contents {d : ℕ} (self : ArrayObject Cls (Option (Rows α d))) :
    Except PyError (JavaArray (Option (Rows α d))) :=
  if self.array.slice then JPArray.clone (rowComponent d) none self else .ok self.slot

/-- The view that is exported: the one in `m_View`, if there is one. -/
def PyJPArray.keepView (type : PrimitiveType) (array : JPArray)
    (mView : Option (JPArrayView α)) (result : JPypeContext.Collection α) :
    Except PyError (JPArrayView α) :=
  match mView with
  | some view => .ok view
  | none => JPArrayView.ofCollection type array result

/-- `PyJPArray_getBuffer`, of an array of arrays (`d + 2` dimensions) whose innermost component
type is `type`: the buffer, and the view that the array object keeps. -/
def PyJPArray.getBuffer {d : ℕ} (type : PrimitiveType)
    (self : ArrayObject Cls (Option (Rows α d))) (mView : Option (JPArrayView α)) (flags : ℕ) :
    Except PyError (PyBuffer × JPArrayView α) :=
  if requested flags pyBufWriteable then
    .error (.bufferError "Java array buffer is not writable")
  else do
    let obj ← contents self
    let result ← collect (d + 1) obj.elements
    let view ← keepView type self.array mView result
    return (view.buffer.restrict flags, { view with refCount := view.refCount + 1 })

/-! ### The copy -/

namespace JPArrayView

theorem toInt32_eq {x : ℤ} (h : 0 ≤ x) (h' : x < 2147483648) : toInt32 x = x := by
  rw [toInt32, Int.bmod_eq_of_le] <;> omega

theorem toInt32_lt (x : ℤ) : toInt32 x < 2147483648 :=
  Int.bmod_lt (x := x) (m := 4294967296) (by decide)

/-- What a copy leaves at the places of items, counted from its offset. -/
theorem copyElements_apply {itemsize : ℕ} (hsize : 0 < itemsize) (memory : ℤ → Option α)
    (offset : ℤ) (part : List α) (k : ℤ) :
    copyElements itemsize memory offset part (offset + itemsize * k) =
      if 0 ≤ k ∧ k < part.length then part[k.toNat]? else memory (offset + itemsize * k) := by
  have hdiff : offset + itemsize * k - offset = itemsize * k := by ring
  have hne : (itemsize : ℤ) ≠ 0 := by omega
  simp only [copyElements, hdiff, Int.mul_emod_right, Int.mul_ediv_cancel_left k hne, true_and]

/-- A copy does not reach beyond its last item. -/
theorem copyElements_of_gt {itemsize : ℕ} (hsize : 0 < itemsize) {memory : ℤ → Option α}
    {offset : ℤ} {part : List α} {last : ℕ} (hlen : part.length ≤ last) {address : ℤ}
    (h : offset + itemsize * ((last : ℤ) - 1) < address) :
    copyElements itemsize memory offset part address = memory address := by
  refine if_neg fun ⟨hmod, hk, hk'⟩ ↦ ?_
  have hmul := Int.mul_ediv_cancel' (Int.dvd_of_emod_eq_zero hmod)
  have hle : (itemsize : ℤ) * ((address - offset) / itemsize) ≤ itemsize * (last - 1) :=
    mul_le_mul_of_nonneg_left (by omega) (by omega)
  omega

/-- As long as the offset of the last part fits an `int`, the parts stand one after the other. -/
theorem copyParts_apply {itemsize last : ℕ} (hsize : 0 < itemsize) {parts : List (List α)}
    (hlen : ∀ part ∈ parts, part.length = last) (memory : ℤ → Option α) (b : ℕ)
    (hfits : ∀ i, i < parts.length → itemsize * last * (b + i) < 2147483648) (k : ℕ) :
    copyParts itemsize last memory (itemsize * last * b : ℕ) parts (itemsize * k : ℕ) =
      if b * last ≤ k ∧ k < (b + parts.length) * last then parts.flatten[k - b * last]?
      else memory (itemsize * k : ℕ) := by
  induction parts generalizing memory b with
  | nil =>
    rw [if_neg (by rw [List.length_nil, add_zero]; omega)]
    rfl
  | cons part parts ih =>
    have hpart := hlen part List.mem_cons_self
    have hlen' : ∀ part ∈ parts, part.length = last :=
      fun part hp ↦ hlen part (List.mem_cons_of_mem _ hp)
    -- The first part fills its own items and no others.
    have hcopy : copyElements itemsize memory (itemsize * last * b : ℕ) (part.take last)
        (itemsize * k : ℕ) =
          if b * last ≤ k ∧ k < b * last + last then part[k - b * last]?
          else memory (itemsize * k : ℕ) := by
      have haddress : ((itemsize * k : ℕ) : ℤ) =
          (itemsize * last * b : ℕ) + itemsize * ((k : ℤ) - (b * last : ℕ)) := by
        push_cast
        ring
      rw [List.take_of_length_le hpart.le, haddress, copyElements_apply hsize, hpart]
      by_cases hin : b * last ≤ k ∧ k < b * last + last
      · rw [if_pos hin, if_pos (by omega), show ((k : ℤ) - (b * last : ℕ)).toNat = k - b * last by
          omega]
      · rw [if_neg hin, if_neg (by omega)]
    -- The other parts begin where it ends, since that offset fits an `int`.
    have hnext (m : ℤ → Option α) : copyParts itemsize last m
        (toInt32 ((itemsize * last * b : ℕ) + toInt32 (itemsize * last))) parts
        (itemsize * k : ℕ) =
          if (b + 1) * last ≤ k ∧ k < (b + 1 + parts.length) * last then
            parts.flatten[k - (b + 1) * last]?
          else m (itemsize * k : ℕ) := by
      obtain hnil | hpos := Nat.eq_zero_or_pos parts.length
      · obtain rfl := List.length_eq_zero_iff.1 hnil
        rw [if_neg (by rw [List.length_nil, add_zero]; omega)]
        rfl
      · have hfit := hfits 1 (by rw [List.length_cons]; omega)
        have hexpand : itemsize * last * (b + 1) = itemsize * last * b + itemsize * last := by ring
        have hstep : toInt32 ((itemsize * last * b : ℕ) + toInt32 (itemsize * last)) =
            (itemsize * last * (b + 1) : ℕ) := by
          have hrow : toInt32 (itemsize * last) = (itemsize * last : ℕ) := by
            rw [toInt32_eq (by positivity) (by rw [← Nat.cast_mul]; omega), Nat.cast_mul]
          rw [hrow, toInt32_eq (by omega) (by omega)]
          omega
        rw [hstep]
        refine ih hlen' m (b + 1) fun i hi ↦ ?_
        have hfit' := hfits (i + 1) (by rw [List.length_cons]; omega)
        rwa [add_assoc, add_comm 1 i]
    rw [copyParts, hnext, hcopy, List.length_cons, List.flatten_cons]
    simp only [Nat.add_mul, one_mul]
    generalize b * last = start
    generalize parts.length * last = rest
    by_cases hlater : start + last ≤ k ∧ k < start + last + rest
    · rw [if_pos hlater, if_pos (by omega), List.getElem?_append_right (by omega), hpart]
      congr 1
      omega
    · by_cases hhere : start ≤ k ∧ k < start + last
      · rw [if_neg hlater, if_pos hhere, if_pos (by omega),
          List.getElem?_append_left (by omega)]
      · rw [if_neg hlater, if_neg hhere, if_neg (by omega)]

/-- No part reaches an item that starts beyond all offsets of type `int`. -/
theorem copyParts_of_ge {itemsize last : ℕ} (hsize : 0 < itemsize) {parts : List (List α)}
    (memory : ℤ → Option α) {offset address : ℤ} (hoffset : offset < 2147483648)
    (haddress : 2147483648 + itemsize * ((last : ℤ) - 1) ≤ address) :
    copyParts itemsize last memory offset parts address = memory address := by
  induction parts generalizing memory offset with
  | nil => rfl
  | cons part parts ih =>
    rw [copyParts, ih _ (toInt32_lt _)]
    exact copyElements_of_gt hsize (List.length_take_le last part) (by omega)

theorem computeStrides_eq (itemsize : ℕ) (shape : List ℕ) :
    computeStrides itemsize shape = (itemsize * shape.prod, Foundation.strides itemsize shape) := by
  induction shape with
  | nil => rw [List.prod_nil, mul_one]; rfl
  | cons n shape ih =>
    rw [computeStrides] at ih
    rw [computeStrides, List.foldr_cons, ih, List.prod_cons, Foundation.strides,
      mul_comm n, ← mul_assoc]

theorem foldl_mul (itemsize : ℕ) (shape : List ℕ) :
    shape.foldl (· * ·) itemsize = itemsize * shape.prod := by
  induction shape generalizing itemsize with
  | nil => rw [List.prod_nil, mul_one]; rfl
  | cons n shape ih => rw [List.foldl_cons, ih, List.prod_cons, mul_assoc]

section Memory

variable {itemsize d : ℕ} {o : Rows α d} {shape : List ℕ}

theorem last_pos (hshape : Rows.HasShape d o shape) (hpos : ∀ n ∈ shape, 0 < n) :
    0 < shape.getLastD 0 := by
  cases shape with
  | nil => cases d <;> cases hshape
  | cons n tail =>
    rw [List.getLastD_cons]
    exact hpos _ List.getLastD_mem_cons

/-- The innermost arrays make up all elements. -/
theorem length_leaves_mul (hshape : Rows.HasShape d o shape) :
    (Rows.leaves d o).length * shape.getLastD 0 = shape.prod := by
  rw [← length_flatten_of_length_eq (Rows.length_of_mem_leaves hshape),
    Rows.length_flatten_leaves hshape]

theorem last_le_prod (hshape : Rows.HasShape d o shape) (hpos : ∀ n ∈ shape, 0 < n) :
    shape.getLastD 0 ≤ shape.prod := by
  have hprod : 0 < shape.prod := List.prod_pos hpos
  rw [← length_leaves_mul hshape] at hprod ⊢
  exact Nat.le_mul_of_pos_left _ (Nat.pos_of_mul_pos_right hprod)

/-- If the offset of the last row fits an `int`, memory holds the elements in order. -/
theorem memory_of_fits (hsize : 0 < itemsize) (hshape : Rows.HasShape d o shape)
    (hfits : itemsize * (shape.prod - shape.getLastD 0) < 2147483648) {k : ℕ}
    (hk : k < shape.prod) :
    copyParts itemsize (shape.getLastD 0) (fun _ ↦ none) 0 (Rows.leaves d o)
        (itemsize * k : ℕ) = (Rows.leaves d o).flatten[k]? := by
  have htotal := length_leaves_mul hshape
  have hfits' : ∀ i, i < (Rows.leaves d o).length →
      itemsize * shape.getLastD 0 * (0 + i) < 2147483648 := by
    intro i hi
    have hmul : (i + 1) * shape.getLastD 0 ≤ shape.prod :=
      htotal ▸ Nat.mul_le_mul_right _ hi
    rw [Nat.add_one_mul] at hmul
    calc itemsize * shape.getLastD 0 * (0 + i)
        = itemsize * (i * shape.getLastD 0) := by rw [zero_add, mul_assoc, mul_comm _ i]
      _ ≤ itemsize * (shape.prod - shape.getLastD 0) := Nat.mul_le_mul_left _ (by omega)
      _ < 2147483648 := hfits
  have hcopy := copyParts_apply hsize (Rows.length_of_mem_leaves hshape) (fun _ ↦ none) 0 hfits' k
  rwa [Nat.mul_zero, Nat.cast_zero, zero_mul, zero_add, htotal, Nat.sub_zero,
    if_pos ⟨Nat.zero_le k, hk⟩] at hcopy

/-- If it does not, the place of the last element is never written. -/
theorem memory_of_overflow (hsize : 0 < itemsize) (hshape : Rows.HasShape d o shape)
    (hpos : ∀ n ∈ shape, 0 < n)
    (hbig : 2147483648 ≤ itemsize * (shape.prod - shape.getLastD 0)) :
    copyParts itemsize (shape.getLastD 0) (fun _ ↦ none) 0 (Rows.leaves d o)
        (itemsize * (shape.prod - 1) : ℕ) = none := by
  have hlast := last_pos hshape hpos
  have hle := last_le_prod hshape hpos
  have hsplit : itemsize * (shape.prod - 1) =
      itemsize * (shape.prod - shape.getLastD 0) + itemsize * (shape.getLastD 0 - 1) := by
    rw [← Nat.mul_add]
    congr 1
    omega
  have hcast : (itemsize : ℤ) * ((shape.getLastD 0 : ℤ) - 1) =
      (itemsize * (shape.getLastD 0 - 1) : ℕ) := by
    rw [Nat.cast_mul, Nat.cast_sub hlast, Nat.cast_one]
  refine copyParts_of_ge hsize _ (by decide) ?_
  rw [hcast]
  omega

end Memory

/-- What the constructor makes of a rectangular array with positive extents. The last row
starts at the offset `itemsize * (shape.prod - shape.getLastD 0)`. -/
structure Copies (type : PrimitiveType) (array : JPArray) {d : ℕ} (o : Rows α d)
    (view : JPArrayView α) : Prop where
  hasShape : Rows.HasShape d o view.shape
  pos : ∀ n ∈ view.shape, 0 < n
  size_eq : view.size = type.getItemSize * view.shape.prod
  buf_eq : view.buffer.buf = type.getItemSize * array.start
  len_eq : view.buffer.len = view.size
  itemsize_eq : view.buffer.itemsize = type.getItemSize
  shape_eq : view.buffer.shape = some view.shape
  strides_eq : view.buffer.strides = some (Foundation.strides type.getItemSize view.shape)
  memory_eq : view.memory = copyParts type.getItemSize (view.shape.getLastD 0) (fun _ ↦ none) 0
    (Rows.leaves d o)

theorem copies_of_collection {type : PrimitiveType} {array : JPArray} {d : ℕ} {o : Rows α d}
    {collection : JPypeContext.Collection α} {view : JPArrayView α}
    (hcollect : JPypeContext.collectRectangular d o = .ok collection)
    (hview : ofCollection type array collection = .ok view) : Copies type array o view := by
  obtain ⟨hshape, hpos, hparts⟩ := JPypeContext.collectRectangular_ok hcollect
  rw [ofCollection, foldl_mul, computeStrides_eq] at hview
  split_ifs at hview
  obtain rfl := Except.ok.inj hview
  exact ⟨hshape, hpos, rfl, rfl, rfl, rfl, rfl, rfl, by rw [hparts]⟩

end JPArrayView

/-! ### What a buffer shows -/

/-- The address of the item at an index tuple, as a consumer of the buffer computes it; without
strides the buffer is contiguous. -/
def PyBuffer.address (b : PyBuffer) (shape index : List ℕ) : ℤ :=
  b.buf + dot index (b.strides.getD (Foundation.strides b.itemsize shape))

/-- The buffer shows the array `o`: it has its shape, and at every index tuple within the shape
it addresses the element of `o`, inside the memory block. Without a shape in the buffer the shape
is that of the view. -/
structure Exports {d : ℕ} (b : PyBuffer) (view : JPArrayView α) (o : Rows α d) : Prop where
  hasShape : Rows.HasShape d o (b.shape.getD view.shape)
  block : 0 ≤ b.buf ∧ b.buf + b.len ≤ view.size
  inBlock : ∀ index, Within index (b.shape.getD view.shape) →
    0 ≤ b.address (b.shape.getD view.shape) index ∧
      b.address (b.shape.getD view.shape) index + b.itemsize ≤ view.size
  element : ∀ index, Within index (b.shape.getD view.shape) →
    ∃ x, Rows.lookup d o index = some x ∧
      view.memory (b.address (b.shape.getD view.shape) index) = some x

/-- The contents of the array when the view to be exported was made: a view that is exported
already is kept, else the view is made now, of the contents `now`. -/
def Snapshot {d : ℕ} (type : PrimitiveType) (array : JPArray) (now : Rows α d)
    (snapshot : Rows α d) : Option (JPArrayView α) → Prop
  | none => snapshot = now
  | some view => JPArrayView.Copies type array snapshot view

/-- The buffer of a view, with the fields that are requested. -/
structure BufferOf (view : JPArrayView α) (b : PyBuffer) : Prop where
  buf_eq : b.buf = view.buffer.buf
  len_eq : b.len = view.buffer.len
  itemsize_eq : b.itemsize = view.buffer.itemsize
  shape_eq : b.shape = none ∨ b.shape = view.buffer.shape
  strides_eq : b.strides = none ∨ b.strides = view.buffer.strides

namespace JPArrayView.Copies

variable {type : PrimitiveType} {array : JPArray} {d : ℕ} {o snapshot : Rows α d}
  {view : JPArrayView α} {b : PyBuffer}

theorem shape_getD (h : Copies type array snapshot view) (hb : BufferOf view b) :
    b.shape.getD view.shape = view.shape := by
  obtain hnone | hsome := hb.shape_eq
  · rw [hnone, Option.getD_none]
  · rw [hsome, h.shape_eq, Option.getD_some]

/-- The address is that of row-major order, moved by the start of the slice. -/
theorem address_eq (h : Copies type array snapshot view) (hb : BufferOf view b)
    {index : List ℕ} (hindex : Within index view.shape) :
    b.address view.shape index =
      type.getItemSize * array.start + (type.getItemSize * flatIndex view.shape index : ℕ) := by
  have hstrides : b.strides.getD (Foundation.strides b.itemsize view.shape) =
      Foundation.strides type.getItemSize view.shape := by
    obtain hnone | hsome := hb.strides_eq
    · rw [hnone, Option.getD_none, hb.itemsize_eq, h.itemsize_eq]
    · rw [hsome, h.strides_eq, Option.getD_some]
  rw [PyBuffer.address, hstrides, dot_strides hindex, hb.buf_eq, h.buf_eq]

/-- The buffer shows the slice exactly if nothing is added to its start, the last row is copied
to its place, and the copy was made of the present contents. -/
theorem exports_iff (h : Copies type array snapshot view) (hb : BufferOf view b)
    (hstart : 0 ≤ array.start) {shape : List ℕ} (hshape : Rows.HasShape d o shape)
    (hpos : ∀ n ∈ shape, 0 < n) :
    Exports b view o ↔ array.start = 0 ∧
      type.getItemSize * (shape.prod - shape.getLastD 0) < 2147483648 ∧ snapshot = o := by
  have hsize := type.getItemSize_pos
  have hgetD := h.shape_getD hb
  have hitemsize : b.itemsize = type.getItemSize := hb.itemsize_eq.trans h.itemsize_eq
  constructor
  · intro hexports
    have hlast := within_last h.pos
    have haddress := h.address_eq hb hlast
    have hflat := flatIndex_last h.pos
    obtain ⟨hshape', -, hblock, helement⟩ := hexports
    rw [hgetD] at hshape' hblock helement
    obtain rfl : shape = view.shape := hshape.unique hshape' hpos
    -- the last item would lie behind the block
    have hstart0 : array.start = 0 := by
      by_contra hne
      have hin := (hblock _ hlast).2
      rw [haddress, hitemsize, h.size_eq, ← hflat, Nat.mul_add_one] at hin
      have hmul : (type.getItemSize : ℤ) * 1 ≤ type.getItemSize * array.start :=
        mul_le_mul_of_nonneg_left (by omega) (by omega)
      omega
    have hfits : type.getItemSize * (view.shape.prod - view.shape.getLastD 0) < 2147483648 := by
      by_contra hbig
      obtain ⟨x, -, hx⟩ := helement _ hlast
      have hlastIndex : flatIndex view.shape (view.shape.map (· - 1)) = view.shape.prod - 1 := by
        omega
      rw [haddress, hstart0, mul_zero, zero_add, hlastIndex, h.memory_eq,
        memory_of_overflow hsize h.hasShape h.pos (not_lt.1 hbig)] at hx
      cases hx
    refine ⟨hstart0, hfits, h.hasShape.ext hshape fun index hindex ↦ ?_⟩
    obtain ⟨x, hx, hmemory⟩ := helement index hindex
    rw [h.address_eq hb hindex, hstart0, mul_zero, zero_add, h.memory_eq,
      memory_of_fits hsize h.hasShape hfits (flatIndex_lt hindex),
      Rows.getElem?_leaves h.hasShape hindex] at hmemory
    rw [hx, hmemory]
  · rintro ⟨hstart0, hfits, rfl⟩
    obtain rfl : shape = view.shape := hshape.unique h.hasShape hpos
    refine ⟨by rw [hgetD]; exact hshape, ?_, fun index hindex ↦ ?_, fun index hindex ↦ ?_⟩
    · rw [hb.buf_eq, h.buf_eq, hb.len_eq, h.len_eq, hstart0]
      omega
    · rw [hgetD] at hindex ⊢
      have hlt := flatIndex_lt hindex
      have hmul : type.getItemSize * (flatIndex view.shape index + 1) ≤
          type.getItemSize * view.shape.prod := Nat.mul_le_mul_left _ hlt
      rw [Nat.mul_add_one] at hmul
      rw [h.address_eq hb hindex, hstart0, hitemsize, h.size_eq, mul_zero, zero_add]
      omega
    · rw [hgetD] at hindex ⊢
      have hlt : flatIndex view.shape index < (Rows.leaves d snapshot).flatten.length := by
        rw [Rows.length_flatten_leaves hshape]
        exact flatIndex_lt hindex
      refine ⟨(Rows.leaves d snapshot).flatten[flatIndex view.shape index], ?_, ?_⟩
      · rw [← Rows.getElem?_leaves hshape hindex, List.getElem?_eq_getElem hlt]
      · rw [h.address_eq hb hindex, hstart0, mul_zero, zero_add, h.memory_eq,
          memory_of_fits hsize hshape hfits (flatIndex_lt hindex),
          List.getElem?_eq_getElem hlt]

end JPArrayView.Copies

/-! ### Exports of slices -/

section Slices

variable {d : ℕ} {type : PrimitiveType} {javaClass : Cls} {slot : JavaArray (Option (Rows α d))}
  {view : JPArray} {items : List (Option (Rows α d))}

/-- The clone of a slice holds its items. -/
theorem JPArray.clone_eq {base : List ℕ}
    (h : view.Addresses (rowComponent d) slot base items) (hle : items.length ≤ 2147483647) :
    ∃ out : JavaArray (Option (Rows α d)), out.elements = items ∧
      JPArray.clone (rowComponent d) none (⟨javaClass, slot, view⟩ : ArrayObject Cls _) =
        .ok out := by
  have hlen : view.getLength.toNat = items.length := by rw [h.getLength, Int.toNat_natCast]
  have hbound : view.getLength.toNat ≤ 2147483647 := by rwa [hlen]
  generalize hnew : (⟨List.replicate view.getLength.toNat none,
    by rwa [List.length_replicate]⟩ : JavaArray (Option (Rows α d))) = newArray
  have hnewArray : JavaArray.newArray none view.getLength = .ok newArray := by
    rw [JavaArray.newArray, dif_pos hbound, hnew]
  have hsame : items.map (rowComponent d).toPython = items := List.map_id items
  have hitems : ArrayObject.items (rowComponent d) (⟨javaClass, slot, view⟩ : ArrayObject Cls _) =
      .ok items := by rw [ArrayObject.items_eq javaClass h, hsame]
  have hconv : items.Forall₂ (fun val x ↦ (rowComponent d).convertItem val = .ok x) items :=
    List.forall₂_same.2 fun _ _ ↦ rfl
  have hnewLength : newArray.elements.length = items.length := by
    rw [← hnew, List.length_replicate, hlen]
  obtain ⟨out, hset, hout⟩ := (rowComponent d).setArrayRange_all hconv hnewLength
  refine ⟨out, hout, ?_⟩
  rw [JPArray.clone, hnewArray, hitems]
  show (((rowComponent d).setArrayRange newArray 0 1 items).2 >>= fun _ ↦
    Except.ok ((rowComponent d).setArrayRange newArray 0 1 items).1) = _
  rw [hset]
  rfl

theorem PyJPArray.collectRectangular_of_collect {d : ℕ} {o : Rows α d}
    {result : JPypeContext.Collection α} (h : PyJPArray.collect d o = .ok result) :
    JPypeContext.collectRectangular d o = .ok result := by
  rw [PyJPArray.collect] at h
  split at h
  · obtain rfl := Except.ok.inj h
    assumption
  · cases h
  · cases h

theorem restrict_field {β : Type} (c : Bool) (field : Option β) :
    (if c then field else none) = none ∨ (if c then field else none) = field := by
  cases c with
  | false => exact .inl rfl
  | true => exact .inr rfl

theorem bufferOf_restrict (view : JPArrayView α) (flags count : ℕ) :
    BufferOf { view with refCount := count } (view.buffer.restrict flags) where
  buf_eq := rfl
  len_eq := rfl
  itemsize_eq := rfl
  shape_eq := restrict_field _ _
  strides_eq := restrict_field _ _

/-- A successful export, taken apart: the items are rectangular, and the buffer is one of a view
of the snapshot, which stays the view of the array object. -/
theorem PyJPArray.getBuffer_ok {obj : ArrayObject Cls (Option (Rows α d))}
    {now : JavaArray (Option (Rows α d))} {snapshot : Rows α (d + 1)}
    {mView : Option (JPArrayView α)} {flags : ℕ} {b : PyBuffer} {view' : JPArrayView α}
    (hnow : contents obj = .ok now)
    (hview : Snapshot type obj.array (d := d + 1) now.elements snapshot mView)
    (hexport : PyJPArray.getBuffer type obj mView flags = .ok (b, view')) :
    (∃ shape, Rows.HasShape (d + 1) now.elements shape ∧ ∀ n ∈ shape, 0 < n) ∧
      JPArrayView.Copies type obj.array snapshot view' ∧ BufferOf view' b := by
  rw [getBuffer] at hexport
  split_ifs at hexport
  obtain ⟨now', hnow', hexport⟩ := bind_eq_ok hexport
  obtain rfl : now' = now := Except.ok.inj (hnow'.symm.trans hnow)
  obtain ⟨result, hresult, hexport⟩ := bind_eq_ok hexport
  obtain ⟨view, hview', hexport⟩ := bind_eq_ok hexport
  have hcollect := collectRectangular_of_collect hresult
  obtain ⟨hshape, hpos, -⟩ := JPypeContext.collectRectangular_ok hcollect
  have hcopies : JPArrayView.Copies type obj.array snapshot view := by
    cases mView with
    | some kept =>
      obtain rfl : kept = view := Except.ok.inj hview'
      exact hview
    | none =>
      subst hview
      exact JPArrayView.copies_of_collection hcollect hview'
  obtain ⟨rfl, rfl⟩ := Prod.mk.inj (Except.ok.inj hexport)
  exact ⟨⟨_, hshape, hpos⟩, ⟨hcopies.1, hcopies.2, hcopies.3, hcopies.4, hcopies.5, hcopies.6,
    hcopies.7, hcopies.8, hcopies.9⟩, bufferOf_restrict _ flags _⟩

/-- **Export of a slice**: the buffer shows the slice exactly if the slice starts at the first
row of the array, the last of its innermost rows starts before the byte `2 ^ 31`, and the view
exported was made of the present contents. -/
theorem export_iff (type : PrimitiveType) (javaClass : Cls)
    (slot : JavaArray (Option (Rows α d))) (slices : List PySlice)
    (obj : ArrayObject Cls (Option (Rows α d))) (items : List (Option (Rows α d)))
    (shape : List ℕ) (snapshot : Rows α (d + 1)) (mView : Option (JPArrayView α)) (flags : ℕ)
    (b : PyBuffer) (view' : JPArrayView α)
    (hobj : ArrayObject.getSlices slices (.create javaClass slot) = .ok obj)
    (hitems : PySlice.chain slices slot.elements = .ok items)
    (hshape : Rows.HasShape (d + 1) items shape)
    (hview : Snapshot type obj.array (d := d + 1) items snapshot mView)
    (hexport : PyJPArray.getBuffer type obj mView flags = .ok (b, view')) :
    Exports (d := d + 1) b view' items ↔ obj.array.start = 0 ∧
      type.getItemSize * (shape.prod - shape.getLastD 0) < 2147483648 ∧ snapshot = items := by
  obtain ⟨view, base, rfl, hslices, htracks, hlookup⟩ :=
    ArrayObject.getSlices_ok hobj hitems
  have hshows := htracks.shows hlookup
  have hle : items.length ≤ 2147483647 := hshows.length_le.trans slot.length_le
  obtain ⟨now, rfl, hnow⟩ : ∃ now : JavaArray (Option (Rows α d)), now.elements = items ∧
      PyJPArray.contents (⟨javaClass, slot, view⟩ : ArrayObject Cls _) = .ok now := by
    obtain ⟨rfl, rfl⟩ | hslice := PyJPArray.slice_of_getSlices slices hslices
    · exact ⟨slot, Except.ok.inj hitems, rfl⟩
    · rw [PyJPArray.contents, if_pos hslice]
      exact JPArray.clone_eq (htracks.addresses (rowComponent d) hlookup) hle
  obtain ⟨⟨shape', hshape', hpos'⟩, hcopies, hbuffer⟩ :=
    PyJPArray.getBuffer_ok hnow hview hexport
  obtain rfl : shape' = shape := hshape'.unique hshape hpos'
  have hstart : 0 ≤ view.start := by
    obtain ⟨tail, rfl, -⟩ := Rows.hasShape_succ hshape
    have hfirst := hshows.nonneg 0 (by
      have := hpos' _ List.mem_cons_self
      have := hshows.length_eq
      omega)
    rwa [Nat.cast_zero, zero_mul, add_zero] at hfirst
  exact hcopies.exports_iff hbuffer hstart hshape hpos'

end Slices

/-- The array `{{0, 1}, {2, 3}, {4, 5}}`. -/
def threeRows : JavaArray (Option (Rows ℤ 0)) :=
  ⟨[some [0, 1], some [2, 3], some [4, 5]], by decide⟩

/-- `threeRows[1:3]`. -/
def lastRows : ArrayObject Unit (Option (Rows ℤ 0)) where
  javaClass := ()
  slot := threeRows
  array := (JPArray.ofValue threeRows).ofSlice 1 3 1

theorem threeRows_hasShape : Rows.HasShape 1 threeRows.elements [3, 2] := by
  refine ⟨rfl, fun r hr ↦ ?_⟩
  obtain rfl | hr := List.mem_cons.1 hr
  · exact ⟨_, rfl, rfl⟩
  obtain rfl | hr := List.mem_cons.1 hr
  · exact ⟨_, rfl, rfl⟩
  obtain rfl := List.mem_singleton.1 hr
  exact ⟨_, rfl, rfl⟩

/-- The buffer of `threeRows[1:3]` starts one item too late, and its last item lies behind the
block of 16 bytes. -/
theorem lastRows_out_of_block :
    ArrayObject.getSlices [middle] (.create () threeRows) = .ok lastRows ∧
      PySlice.chain [middle] threeRows.elements = .ok [some [2, 3], some [4, 5]] ∧
      ∃ b view, PyJPArray.getBuffer .int lastRows none 0x1c = .ok (b, view) ∧
        b.shape = some [2, 2] ∧ view.size = 16 ∧ b.address [2, 2] [0, 0] = 4 ∧
        b.address [2, 2] [1, 1] = 16 ∧
        ¬Exports (d := 1) b view [some [2, 3], some [4, 5]] := by
  refine ⟨rfl, rfl, _, _, rfl, rfl, rfl, rfl, rfl, fun h ↦ ?_⟩
  have hlast := (h.inBlock [1, 1] (.cons (by decide) (.cons (by decide) .nil))).2
  exact absurd hlast (by decide)

/-- `export_iff` for the whole array. -/
theorem threeRows_exported :
    ∃ b view, PyJPArray.getBuffer .int (.create () threeRows : ArrayObject Unit _) none 0x1c =
        .ok (b, view) ∧
      Exports (d := 1) b view threeRows.elements :=
  ⟨_, _, rfl, (export_iff .int () threeRows [] (.create () threeRows) threeRows.elements [3, 2]
    threeRows.elements none 0x1c _ _ rfl rfl threeRows_hasShape rfl rfl).2
      ⟨rfl, by decide, rfl⟩⟩

end JPype
