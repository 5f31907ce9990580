import JPype.Array.BufferExport
import JPype.Foundation.Iteration
import JPype.Foundation.Odometer

/-!
# Arrays made from buffers

`convertBuffer` makes a Java array of a Python buffer of any number of dimensions. Its loop,
`convertMultiArray`, counts through the index tuples with an odometer. Within a row it steps from
item to item by the last stride, and at the end of a row it puts the row into an array of rows and
looks up where the next one begins. `takesInRowMajor_iff` says when the loop takes in every item
once, in row-major order, from the place that the buffer protocol gives it.

Addresses are integers, `deref` is the memory of pointers, and `read` is what a converter makes of
the bytes at an address.
-/

namespace JPype

open Foundation

/-! ### Converters -/

/-- The type of the items that a converter reads. -/
inductive ItemType where
  | int8
  | uint8
  | int16
  | uint16
  | int32
  | uint32
  | int64
  | uint64
  | float
  | double
  | half
  | ssize
  | size
  deriving DecidableEq, Repr

/-- A `jconverter`: what it reads, whether it swaps the bytes, and what it makes. -/
structure Converter where
  item : ItemType
  reverse : Bool
  target : PrimitiveType
  deriving DecidableEq, Repr

/-- The type behind a format character. -/
def formatItem : Char → Option ItemType
  | '?' | 'c' | 'b' => some .int8
  | 'B' => some .uint8
  | 'h' => some .int16
  | 'H' => some .uint16
  | 'i' | 'l' => some .int32
  | 'I' | 'L' => some .uint32
  | 'q' => some .int64
  | 'Q' => some .uint64
  | 'f' => some .float
  | 'd' => some .double
  | 'e' => some .half
  | 'n' => some .ssize
  | 'N' => some .size
  | _ => none

/-- The byte order character at the front of a format, and the rest. -/
def splitByteOrder (little : Bool) : List Char → Bool × List Char
  | '!' :: format | '>' :: format => (little, format)
  | '<' :: format => (!little, format)
  | '@' :: format | '=' :: format => (false, format)
  | format => (false, format)

/-- `getConverter`. Single bytes are never swapped. -/
def getConverter (little : Bool) (format : Option (List Char)) (itemsize : ℕ)
    (target : PrimitiveType) : Option Converter :=
  let (reverse, format) := splitByteOrder little (format.getD ['B'])
  match format with
  | [] => none
  | c :: _ =>
    -- numpy has 'l' for items of eight bytes.
    let c := if itemsize = 8 ∧ c = 'l' then 'q' else if itemsize = 8 ∧ c = 'L' then 'Q' else c
    (formatItem c).map fun item ↦
      ⟨item, reverse && item ≠ .int8 && item ≠ .uint8, target⟩

/-! ### Buffers -/

/-- The view of a `JPPyBuffer`. A field that the exporter left out is null. -/
structure JPPyBuffer where
  buf : ℤ
  len : ℕ
  itemsize : ℕ
  format : Option (List Char)
  ndim : ℕ
  shape : Option (List ℕ)
  strides : Option (List ℤ)
  suboffsets : Option (List ℤ)

variable {α : Type}

namespace JPPyBuffer

/-- The suboffsets, one for each dimension. -/
def suboffsetList (view : JPPyBuffer) : List (Option ℤ) :=
  match view.suboffsets with
  | none => List.replicate view.ndim none
  | some suboffsets => suboffsets.map some

/-- The suboffset of the last dimension. -/
def lastSuboffset (view : JPPyBuffer) : Option ℤ :=
  view.suboffsets.bind List.getLast?

/-- The distance of neighbours in the last dimension. -/
def lastStride (view : JPPyBuffer) : ℤ :=
  match view.strides with
  | none => view.itemsize
  | some strides => strides.getLastD 0

/-- One dimension of an item's address: along the stride, and through a pointer if there is a
suboffset that is not negative. -/
def advance (deref : ℤ → ℤ) (pointer : ℤ) : ℤ × Option ℤ × ℕ → ℤ
  | (stride, suboffset, i) =>
    let pointer := pointer + stride * i
    match suboffset with
    | none => pointer
    | some suboffset => if 0 ≤ suboffset then deref pointer + suboffset else pointer

/-- `getBufferPtr` -/
def getBufferPtr (deref : ℤ → ℤ) (view : JPPyBuffer) (indices : List ℕ) : ℤ :=
  match view.shape, view.strides with
  | none, _ => view.buf
  | some shape, none =>
    view.buf + ((shape.zip indices).foldl (fun index (n, i) ↦ index * n + i) 0 : ℕ) *
      view.itemsize
  | some _, some strides =>
    (strides.zip (view.suboffsetList.zip indices)).foldl (advance deref) view.buf

end JPPyBuffer

/-! ### The loop -/

/-- How the intake of a buffer fails. -/
inductive IntakeError where
  | lastDimensionNotContiguous
  | dimsInconsistent
  | typeCodeNotSupported (format : List Char)
  | unableToHandleBufferType
  | negativeArraySize
  | arrayIndexOutOfBounds
  /-- The extents are read through a null pointer. -/
  | nullShape
  /-- An element is written past the end of its array. -/
  | outsideArray
  deriving DecidableEq, Repr

/-- What the loop leaves: the array of sub-arrays, and the addresses at which items were read, in
order. -/
structure Intake (α : Type) where
  contents : List (Option (List α))
  reads : List ℤ
  deriving DecidableEq

/-- The variables of the loop. `lead` and `last` are the indices, the last one apart; `written`
has the elements of the current sub-array that have been written, and `parts` the sub-arrays
before it. -/
structure IntakeState (α : Type) where
  lead : List ℕ
  last : ℕ
  src : ℤ
  written : List α
  parts : List (List α)
  reads : List ℤ

/-- What the loop does not change. -/
structure IntakeFrame (α : Type) where
  view : JPPyBuffer
  deref : ℤ → ℤ
  convert : ℤ → α
  zero : α
  /-- The extents of the dimensions, the last one apart. -/
  lead : List ℕ
  last : ℕ
  step : ℤ
  /-- The length of the array of sub-arrays. -/
  slots : ℕ
  /-- The length of each sub-array. -/
  base : ℕ

namespace IntakeFrame

/-- The sub-array with what has been written; the rest of a new array is zero. -/
def commit (frame : IntakeFrame α) (written : List α) : List α :=
  written ++ List.replicate (frame.base - written.length) frame.zero

/-- The body of the loop after the test for the end of a row. -/
def convertItem (frame : IntakeFrame α) (s : IntakeState α) :
    IntakeState α ⊕ Except IntakeError (Intake α) :=
  if s.written.length < frame.base then
    .inl { s with
      last := s.last + 1
      src := s.src + frame.step
      written := s.written ++ [frame.convert s.src]
      reads := s.reads ++ [s.src] }
  else .inr (.error .outsideArray)

/-- The loop over `j`, on the extents and the indices from the last but one to the first: the
indices after it, and whether all of them are back at zero. -/
def carry : List ℕ → List ℕ → List ℕ × Bool
  | n :: shape, i :: indices =>
    if i + 1 < n then ((i + 1) :: indices, false)
    else ((0 :: (carry shape indices).1), (carry shape indices).2)
  | _, indices => (indices, true)

/-- The body of the loop. -/
def body (frame : IntakeFrame α) (s : IntakeState α) :
    IntakeState α ⊕ Except IntakeError (Intake α) :=
  if s.last = frame.last then
    let (lead, wrapped) := carry frame.lead.reverse s.lead.reverse
    let parts := s.parts ++ [frame.commit s.written]
    if wrapped then
      .inr (.ok
        ⟨parts.map some ++ List.replicate (frame.slots - parts.length) none, s.reads⟩)
    else if parts.length < frame.slots then
      frame.convertItem { s with
        lead := lead.reverse
        last := 0
        src := frame.view.getBufferPtr frame.deref (lead.reverse ++ [0])
        written := []
        parts := parts }
    else .inr (.error .arrayIndexOutOfBounds)
  else frame.convertItem s

end IntakeFrame

/-- `newArrayOf` for a length that is an `int`. -/
def newArrayOf (size : ℤ) : Except IntakeError ℕ :=
  if size < 0 then .error .negativeArraySize else .ok size.toNat

/-- `convertMultiArray` before the loop. -/
def startIntake (view : JPPyBuffer) (deref : ℤ → ℤ) (convert : Option (ℤ → α)) (zero : α)
    (subs base : ℤ) : Except IntakeError (IntakeFrame α × IntakeState α) := do
  let some convert := convert | .error .unableToHandleBufferType
  let slots ← newArrayOf subs
  let base ← newArrayOf base
  if slots = 0 then .error .arrayIndexOutOfBounds
  let some shape := view.shape | .error .nullShape
  let lead := shape.dropLast
  return (⟨view, deref, convert, zero, lead, shape.getLastD 0, view.lastStride, slots, base⟩,
    ⟨origin lead, 0, view.getBufferPtr deref (origin lead ++ [0]), [], [], []⟩)

/-- `convertMultiArray`, for at most `fuel` rounds of the loop. -/
def convertMultiArray (fuel : ℕ) (view : JPPyBuffer) (deref : ℤ → ℤ) (convert : Option (ℤ → α))
    (zero : α) (subs base : ℤ) : Option (Except IntakeError (Intake α)) :=
  match startIntake view deref convert zero subs base with
  | .error e => some (.error e)
  | .ok (frame, s) => iterate frame.body fuel s

/-- The class of the elements when no `dtype` is given, by the format character. -/
def formatClass : Char → Option PrimitiveType
  | '?' => some .boolean
  | 'b' => some .byte
  | 'h' => some .short
  | 'i' | 'l' => some .int
  | 'q' => some .long
  | 'f' => some .float
  | 'd' => some .double
  | _ => none

/-- The part of `convertBuffer` that finds the class. A `dtype` is primitive here; any other one
is left to the constructor of the array class. -/
def bufferClass (view : JPPyBuffer) (dtype : Option PrimitiveType) :
    Except IntakeError PrimitiveType :=
  match dtype with
  | some cls => .ok cls
  | none =>
    let format := view.format.getD ['B']
    let format := if view.itemsize = 8 ∧ format.head? = some 'l' then ['q'] else format
    let format := if view.itemsize = 8 ∧ format.head? = some 'L' then ['Q'] else format
    match format.head?.bind formatClass with
    | some cls => .ok cls
    | none => .error (.typeCodeNotSupported format)

/-- `convertBuffer`. The numbers of sub-arrays and of elements in each are passed on as `int`. -/
def convertBuffer (fuel : ℕ) (little : Bool) (view : JPPyBuffer) (dtype : Option PrimitiveType)
    (deref : ℤ → ℤ) (read : Converter → ℤ → α) (zero : α) :
    Option (Except IntakeError (Intake α)) :=
  if view.lastSuboffset.any (0 < ·) then
    some (.error .lastDimensionNotContiguous)
  else
    match bufferClass view dtype with
    | .error e => some (.error e)
    | .ok cls =>
      let convert := (getConverter little view.format view.itemsize cls).map read
      match view.shape with
      | some shape =>
        convertMultiArray fuel view deref convert zero
          (JPArrayView.toInt32 shape.dropLast.prod) (JPArrayView.toInt32 (shape.getLastD 1))
      | none =>
        if 1 < view.ndim then some (.error .dimsInconsistent)
        else convertMultiArray fuel view deref convert zero
          (JPArrayView.toInt32 1) (JPArrayView.toInt32 (view.len / view.itemsize))

/-! ### The counter of the loop -/

namespace IntakeFrame

theorem carry_concat {shape indices : List ℕ} (h : indices.length = shape.length) (n i : ℕ) :
    carry (shape ++ [n]) (indices ++ [i]) =
      if (carry shape indices).2 then
        ((carry shape indices).1 ++ [if i + 1 < n then i + 1 else 0], !decide (i + 1 < n))
      else ((carry shape indices).1 ++ [i], false) := by
  induction shape generalizing indices with
  | nil =>
    obtain rfl := List.length_eq_zero_iff.1 h
    by_cases hi : i + 1 < n <;> simp [carry, hi]
  | cons m shape ih =>
    obtain ⟨j, indices, rfl⟩ := List.exists_of_length_succ indices h
    rw [List.length_cons, List.length_cons, Nat.add_right_cancel_iff] at h
    by_cases hj : j + 1 < m
    · simp [carry, hj]
    · rw [List.cons_append, List.cons_append, carry, carry, if_neg hj, if_neg hj, ih h]
      split <;> rfl

/-- The carry is the counter of the index tuples. -/
theorem carry_reverse {shape index : List ℕ} (h : index.length = shape.length) :
    carry shape.reverse index.reverse =
      match next shape index with
      | some index' => (index'.reverse, false)
      | none => ((origin shape).reverse, true) := by
  induction shape generalizing index with
  | nil =>
    obtain rfl := List.length_eq_zero_iff.1 h
    rfl
  | cons n shape ih =>
    obtain ⟨i, index, rfl⟩ := List.exists_of_length_succ index h
    rw [List.length_cons, List.length_cons, Nat.add_right_cancel_iff] at h
    have hcarry := ih h
    rw [List.reverse_cons, List.reverse_cons,
      carry_concat (by rw [List.length_reverse, List.length_reverse, h]), hcarry, next]
    cases next shape index with
    | some index' => simp
    | none => by_cases hi : i + 1 < n <;> simp [hi, origin]

end IntakeFrame

/-! ### The addresses of the buffer protocol -/

namespace JPPyBuffer

/-- Strides and suboffsets, one for each dimension. Without strides the items are
C-contiguous. -/
def dimensions (view : JPPyBuffer) (shape : List ℕ) : List (ℤ × Option ℤ) :=
  (view.strides.getD ((Foundation.strides view.itemsize shape).map fun n : ℕ ↦ (n : ℤ))).zip
    view.suboffsetList

/-- The address of the item at an index tuple: along each stride in turn, and where the suboffset
is there and not negative, through the pointer that is found there. -/
def itemAddress (deref : ℤ → ℤ) : ℤ → List (ℤ × Option ℤ) → List ℕ → ℤ
  | pointer, (stride, none) :: dimensions, i :: index =>
    itemAddress deref (pointer + stride * i) dimensions index
  | pointer, (stride, some suboffset) :: dimensions, i :: index =>
    if suboffset < 0 then itemAddress deref (pointer + stride * i) dimensions index
    else itemAddress deref (deref (pointer + stride * i) + suboffset) dimensions index
  | pointer, _, _ => pointer

/-- A buffer as an exporter must fill it in, of positive extents `lead` and then `n`. -/
structure HasShape (view : JPPyBuffer) (lead : List ℕ) (n : ℕ) : Prop where
  shape_eq : view.shape = some (lead ++ [n])
  ndim_eq : view.ndim = lead.length + 1
  pos : ∀ m ∈ lead ++ [n], 0 < m
  length_strides : ∀ strides, view.strides = some strides → strides.length = view.ndim
  length_suboffsets : ∀ suboffsets, view.suboffsets = some suboffsets →
    suboffsets.length = view.ndim
  suboffsets_of_strides : view.strides = none → view.suboffsets = none

theorem itemAddress_cons (deref : ℤ → ℤ) (pointer : ℤ) (dimension : ℤ × Option ℤ)
    (dimensions : List (ℤ × Option ℤ)) (i : ℕ) (index : List ℕ) :
    itemAddress deref pointer (dimension :: dimensions) (i :: index) =
      itemAddress deref (advance deref pointer (dimension.1, dimension.2, i)) dimensions index := by
  obtain ⟨stride, suboffset | suboffset⟩ := dimension
  · rfl
  · rw [itemAddress, advance]
    by_cases h : suboffset < 0
    · simp only [if_pos h, if_neg (not_le.2 h)]
    · simp only [if_neg h, if_pos (not_lt.1 h)]

theorem itemAddress_concat (deref : ℤ → ℤ) (pointer : ℤ) {dimensions : List (ℤ × Option ℤ)}
    {index : List ℕ} (h : index.length = dimensions.length) (dimension : ℤ × Option ℤ) (i : ℕ) :
    itemAddress deref pointer (dimensions ++ [dimension]) (index ++ [i]) =
      advance deref (itemAddress deref pointer dimensions index)
        (dimension.1, dimension.2, i) := by
  induction dimensions generalizing pointer index with
  | nil =>
    obtain rfl := List.length_eq_zero_iff.1 h
    rw [List.nil_append, List.nil_append, itemAddress_cons]
    rfl
  | cons d dimensions ih =>
    obtain ⟨j, index, rfl⟩ := List.exists_of_length_succ index h
    rw [List.length_cons, List.length_cons, Nat.add_right_cancel_iff] at h
    rw [List.cons_append, List.cons_append, itemAddress_cons, itemAddress_cons, ih _ h]

/-- The loop over the dimensions computes the address of the protocol. -/
theorem foldl_advance (deref : ℤ → ℤ) (pointer : ℤ) (strides : List ℤ)
    (suboffsets : List (Option ℤ)) (index : List ℕ) (h : suboffsets.length = index.length) :
    (strides.zip (suboffsets.zip index)).foldl (advance deref) pointer =
      itemAddress deref pointer (strides.zip suboffsets) index := by
  induction index generalizing pointer strides suboffsets with
  | nil =>
    obtain rfl := List.length_eq_zero_iff.1 h
    cases strides <;> rfl
  | cons i index ih =>
    obtain ⟨suboffset, suboffsets, rfl⟩ := List.exists_of_length_succ suboffsets h
    rw [List.length_cons, List.length_cons, Nat.add_right_cancel_iff] at h
    cases strides with
    | nil => rfl
    | cons stride strides =>
      rw [List.zip_cons_cons, List.zip_cons_cons, List.zip_cons_cons, List.foldl_cons,
        itemAddress_cons, ih _ _ _ h]

/-- Without suboffsets the address is a sum. -/
theorem itemAddress_of_none (deref : ℤ → ℤ) (pointer : ℤ) (strides index : List ℕ) :
    itemAddress deref pointer
        ((strides.map fun n : ℕ ↦ (n : ℤ)).zip (List.replicate index.length none)) index =
      pointer + dot index strides := by
  induction index generalizing pointer strides with
  | nil =>
    cases strides <;> simp [itemAddress, dot]
  | cons i index ih =>
    cases strides with
    | nil => simp [itemAddress, dot]
    | cons stride strides =>
      rw [List.map_cons, List.length_cons, List.replicate_succ, List.zip_cons_cons, itemAddress,
        ih, dot, dot, List.zipWith_cons_cons, List.sum_cons]
      push_cast
      ring

/-- The index computed by the loop without strides is the number of the item. -/
theorem foldl_index {shape index : List ℕ} (h : index.length = shape.length) (start : ℕ) :
    (shape.zip index).foldl (fun index (n, i) ↦ index * n + i) start =
      start * shape.prod + flatIndex shape index := by
  induction shape generalizing index start with
  | nil =>
    obtain rfl := List.length_eq_zero_iff.1 h
    simp [flatIndex]
  | cons n shape ih =>
    obtain ⟨i, index, rfl⟩ := List.exists_of_length_succ index h
    rw [List.length_cons, List.length_cons, Nat.add_right_cancel_iff] at h
    rw [List.zip_cons_cons, List.foldl_cons, ih h, List.prod_cons, flatIndex]
    ring

theorem HasShape.length_suboffsetList {view : JPPyBuffer} {lead : List ℕ} {n : ℕ}
    (h : view.HasShape lead n) : view.suboffsetList.length = lead.length + 1 := by
  rw [suboffsetList, ← h.ndim_eq]
  cases hsub : view.suboffsets with
  | none => exact List.length_replicate
  | some suboffsets => rw [List.length_map, h.length_suboffsets suboffsets hsub]

/-- `getBufferPtr` gives the address of the protocol. -/
theorem HasShape.getBufferPtr_eq {view : JPPyBuffer} {lead : List ℕ} {n : ℕ}
    (h : view.HasShape lead n) (deref : ℤ → ℤ) {index : List ℕ}
    (hindex : Within index (lead ++ [n])) :
    view.getBufferPtr deref index =
      itemAddress deref view.buf (view.dimensions (lead ++ [n])) index := by
  have hlength : index.length = lead.length + 1 := by
    rw [hindex.length_eq, List.length_append, List.length_singleton]
  rw [getBufferPtr, h.shape_eq, dimensions]
  cases hstrides : view.strides with
  | none =>
    have hlist : view.suboffsetList = List.replicate index.length none := by
      rw [suboffsetList, h.suboffsets_of_strides hstrides, h.ndim_eq, hlength]
    rw [Option.getD_none, hlist, itemAddress_of_none, dot_strides hindex]
    simp only [foldl_index hindex.length_eq, zero_mul, zero_add]
    push_cast
    ring
  | some strides =>
    rw [Option.getD_some]
    exact foldl_advance deref view.buf strides _ index
      (h.length_suboffsetList.trans hlength.symm)

end JPPyBuffer

/-! ### What the loop takes in -/

namespace IntakeFrame

variable {frame : IntakeFrame α} {s : IntakeState α}

/-- The place where a row begins. -/
def rowStart (frame : IntakeFrame α) (p : List ℕ) : ℤ :=
  frame.view.getBufferPtr frame.deref (p ++ [0])

/-- The addresses read in a row: from its start in equal steps. -/
def rowReads (frame : IntakeFrame α) (p : List ℕ) : List ℤ :=
  progression (frame.rowStart p) frame.step frame.last

/-- The state after `i` items of a row. -/
def inRow (frame : IntakeFrame α) (p : List ℕ) (parts : List (List α)) (reads : List ℤ) (i : ℕ) :
    IntakeState α where
  lead := p
  last := i
  src := frame.rowStart p + i * frame.step
  written := (progression (frame.rowStart p) frame.step i).map frame.convert
  parts := parts
  reads := reads ++ progression (frame.rowStart p) frame.step i

/-- Sub-arrays that are long enough for the rows. -/
structure Fits (frame : IntakeFrame α) : Prop where
  base_eq : frame.base = frame.last
  last_pos : 0 < frame.last

theorem body_inRow (h : frame.Fits) (p : List ℕ) (parts : List (List α)) (reads : List ℤ) {i : ℕ}
    (hi : i < frame.last) :
    frame.body (frame.inRow p parts reads i) = .inl (frame.inRow p parts reads (i + 1)) := by
  have hlength : (progression (frame.rowStart p) frame.step i).length < frame.base := by
    rw [length_progression, h.base_eq]
    exact hi
  rw [body, inRow, if_neg hi.ne, convertItem, List.length_map, if_pos hlength, inRow,
    progression_concat, List.map_append, List.map_singleton, List.append_assoc]
  push_cast
  ring_nf

/-- The loop goes through a row to its end. -/
theorem ends_row (h : frame.Fits) {p : List ℕ} {parts : List (List α)} {reads : List ℤ}
    {result : Except IntakeError (Intake α)}
    (hend : Ends frame.body (frame.inRow p parts reads frame.last) result) :
    Ends frame.body (frame.inRow p parts reads 0) result := by
  have hrow : ∀ k ≤ frame.last,
      Ends frame.body (frame.inRow p parts reads (frame.last - k)) result := by
    intro k
    induction k with
    | zero => exact fun _ ↦ hend
    | succ k ih =>
      intro hk
      refine Ends.of_inl (body_inRow h p parts reads (by omega)) ?_
      rw [show frame.last - (k + 1) + 1 = frame.last - k by omega]
      exact ih (by omega)
  have hall := hrow frame.last le_rfl
  rwa [Nat.sub_self] at hall

theorem commit_row (h : frame.Fits) (p : List ℕ) :
    frame.commit ((frame.rowReads p).map frame.convert) = (frame.rowReads p).map frame.convert := by
  rw [commit, List.length_map, rowReads, length_progression, h.base_eq, Nat.sub_self]
  exact List.append_nil _

/-- At the end of the last row the loop is left. -/
theorem body_rowEnd_none (h : frame.Fits) {p : List ℕ} (hp : p.length = frame.lead.length)
    (hnext : next frame.lead p = none) (parts : List (List α)) (reads : List ℤ) :
    frame.body (frame.inRow p parts reads frame.last) =
      .inr (.ok ⟨(parts ++ [(frame.rowReads p).map frame.convert]).map some ++
        List.replicate (frame.slots - (parts.length + 1)) none, reads ++ frame.rowReads p⟩) := by
  have hcarry := carry_reverse hp
  rw [hnext] at hcarry
  have hcommit := commit_row h p
  rw [rowReads] at hcommit
  simp only [body, inRow, if_true, hcarry, hcommit, List.length_append, List.length_singleton,
    rowReads]

/-- At the end of another row the loop goes on as from the start of the next. -/
theorem body_rowEnd_some (h : frame.Fits) {p p' : List ℕ} (hp : p.length = frame.lead.length)
    (hnext : next frame.lead p = some p') {parts : List (List α)} (reads : List ℤ)
    (hslots : parts.length + 1 < frame.slots) :
    frame.body (frame.inRow p parts reads frame.last) =
      frame.body (frame.inRow p' (parts ++ [(frame.rowReads p).map frame.convert])
        (reads ++ frame.rowReads p) 0) := by
  have hcarry := carry_reverse hp
  rw [hnext] at hcarry
  have hcommit := commit_row h p
  rw [rowReads] at hcommit
  have hstart : ∀ parts' reads', frame.body (frame.inRow p' parts' reads' 0) =
      frame.convertItem (frame.inRow p' parts' reads' 0) :=
    fun parts' reads' ↦ if_neg h.last_pos.ne
  rw [hstart]
  simp only [body, inRow, if_true, hcarry, hcommit, List.length_append, List.length_singleton,
    if_pos hslots, List.reverse_reverse, Bool.false_eq_true, if_false, rowReads, progression_zero,
    List.map_nil, List.append_nil, Nat.cast_zero, zero_mul, add_zero]
  rfl

/-- The whole run: by induction on the rows that are still to come. -/
theorem ends_rows (h : frame.Fits) {p : List ℕ} {rest : List (List ℕ)}
    (hcounts : Counts frame.lead none p rest)
    (hlength : ∀ q ∈ p :: rest, q.length = frame.lead.length) {parts : List (List α)}
    {reads : List ℤ} (hslots : parts.length + rest.length + 1 = frame.slots) :
    Ends frame.body (frame.inRow p parts reads 0)
      (.ok ⟨(parts ++ (p :: rest).map fun q ↦ (frame.rowReads q).map frame.convert).map some,
        reads ++ (p :: rest).flatMap frame.rowReads⟩) := by
  induction rest generalizing p parts reads with
  | nil =>
    refine ends_row h (Ends.of_inr ?_)
    rw [body_rowEnd_none h (hlength p List.mem_cons_self) hcounts, ← hslots, List.length_nil,
      Nat.add_zero, Nat.sub_self, List.replicate_zero, List.append_nil, List.flatMap_singleton]
    rfl
  | cons p' rest ih =>
    rw [List.length_cons] at hslots
    have hrest := @ih p' hcounts.2 (fun q hq ↦ hlength q (List.mem_cons_of_mem p hq))
      (parts ++ [(frame.rowReads p).map frame.convert]) (reads ++ frame.rowReads p)
      (by rw [List.length_append, List.length_singleton]; omega)
    rw [List.append_assoc, List.append_assoc] at hrest
    exact ends_row h ((hrest.congr (body_rowEnd_some h (hlength p List.mem_cons_self) hcounts.1
      reads (by omega))))

/-- Every sub-array has the length that was asked for, and the current one has a slot. -/
structure Sized (frame : IntakeFrame α) (s : IntakeState α) : Prop where
  length_written : s.written.length ≤ frame.base
  length_parts : s.parts.length < frame.slots
  length_rows : ∀ row ∈ s.parts, row.length = frame.base

theorem length_commit {written : List α} (h : written.length ≤ frame.base) :
    (frame.commit written).length = frame.base := by
  rw [commit, List.length_append, List.length_replicate, Nat.add_sub_cancel' h]

theorem Sized.convertItem (h : frame.Sized s) {s' : IntakeState α}
    (hs : frame.convertItem s = .inl s') : frame.Sized s' := by
  rw [IntakeFrame.convertItem] at hs
  split_ifs at hs with hlt
  obtain rfl := Sum.inl.inj hs
  refine ⟨?_, h.length_parts, h.length_rows⟩
  rw [List.length_append, List.length_singleton]
  exact hlt

theorem Sized.commit (h : frame.Sized s) :
    ∀ row ∈ s.parts ++ [frame.commit s.written], row.length = frame.base := by
  intro row hrow
  rcases List.mem_append.1 hrow with hmem | hmem
  · exact h.length_rows row hmem
  · rw [List.mem_singleton.1 hmem]
    exact length_commit h.length_written

theorem Sized.body (h : frame.Sized s) {s' : IntakeState α} (hs : frame.body s = .inl s') :
    frame.Sized s' := by
  rw [IntakeFrame.body] at hs
  obtain ⟨lead, wrapped⟩ := carry frame.lead.reverse s.lead.reverse
  dsimp only at hs
  split_ifs at hs with hlast hwrapped hslots
  · exact convertItem ⟨Nat.zero_le _, hslots, h.commit⟩ hs
  · exact h.convertItem hs

theorem Sized.contents (h : frame.Sized s) {intake : Intake α}
    (hs : frame.body s = .inr (.ok intake)) :
    intake.contents.length = frame.slots ∧
      ∀ row, some row ∈ intake.contents → row.length = frame.base := by
  have hitem : ∀ s' : IntakeState α, frame.convertItem s' ≠ .inr (.ok intake) := by
    intro s' hs'
    rw [IntakeFrame.convertItem] at hs'
    split_ifs at hs'
    cases hs'
  rw [IntakeFrame.body] at hs
  obtain ⟨lead, wrapped⟩ := carry frame.lead.reverse s.lead.reverse
  dsimp only at hs
  split_ifs at hs with hlast hwrapped hslots
  · obtain rfl := Except.ok.inj (Sum.inr.inj hs)
    constructor
    · have := h.length_parts
      simp only [List.length_append, List.length_map, List.length_replicate,
        List.length_singleton]
      omega
    · intro row hrow
      rcases List.mem_append.1 hrow with hmem | hmem
      · obtain ⟨row', hrow', heq⟩ := List.mem_map.1 hmem
        obtain rfl := Option.some.inj heq
        exact h.commit row' hrow'
      · exact absurd (List.eq_of_mem_replicate hmem) (Option.some_ne_none row)
  · exact absurd hs (hitem _)
  · cases hs
  · exact absurd hs (hitem _)

end IntakeFrame

/-! ### Intake in row-major order -/

/-- The rows are all there, as long as they should be, and have the items converted in row-major
order; these are the places that were read, in that order. -/
structure Intake.TakesInRowMajor (intake : Intake α) (convert : ℤ → α) (lead : List ℕ) (n : ℕ)
    (addresses : List ℤ) : Prop where
  length_contents : intake.contents.length = lead.prod
  length_rows : ∀ part ∈ intake.contents, ∃ row, part = some row ∧ row.length = n
  elements : (intake.contents.map (·.getD [])).flatten = addresses.map convert
  reads_eq : intake.reads = addresses

namespace JPPyBuffer

variable {view : JPPyBuffer} {lead : List ℕ} {n : ℕ}

/-- The addresses of all items, in row-major order. -/
def addresses (view : JPPyBuffer) (deref : ℤ → ℤ) (shape : List ℕ) : List ℤ :=
  (tuples shape).map (itemAddress deref view.buf (view.dimensions shape))

/-- Where the last dimension begins, for an index tuple of the others. -/
def rowPointer (view : JPPyBuffer) (deref : ℤ → ℤ) (shape p : List ℕ) : ℤ :=
  itemAddress deref view.buf (view.dimensions shape).dropLast p

/-- Where the last dimension goes through pointers, those of a row lie apart as the places do at
which they are found. -/
def EvenRows (view : JPPyBuffer) (deref : ℤ → ℤ) (lead : List ℕ) (n : ℕ) : Prop :=
  view.lastSuboffset = some 0 → ∀ p, Within p lead → ∀ i < n,
    deref (view.rowPointer deref (lead ++ [n]) p + view.lastStride * i) =
      deref (view.rowPointer deref (lead ++ [n]) p) + view.lastStride * i

theorem strides_concat (unit : ℕ) (lead : List ℕ) (n : ℕ) :
    ∃ l, l.length = lead.length ∧ Foundation.strides unit (lead ++ [n]) = l ++ [unit] := by
  induction lead with
  | nil => exact ⟨[], rfl, by simp [Foundation.strides]⟩
  | cons m lead ih =>
    obtain ⟨l, hl, heq⟩ := ih
    exact ⟨unit * (lead ++ [n]).prod :: l, congrArg Nat.succ hl, by
      rw [List.cons_append, Foundation.strides, heq, List.cons_append]⟩

/-- The last of the dimensions. -/
theorem HasShape.dimensions_eq (h : view.HasShape lead n) :
    ∃ dimensions, dimensions.length = lead.length ∧
      view.dimensions (lead ++ [n]) = dimensions ++ [(view.lastStride, view.lastSuboffset)] := by
  have hstrides : ∃ l : List ℤ, l.length = lead.length ∧ view.strides.getD
      ((Foundation.strides view.itemsize (lead ++ [n])).map fun n : ℕ ↦ (n : ℤ)) =
        l ++ [view.lastStride] := by
    rw [lastStride]
    cases hview : view.strides with
    | none =>
      obtain ⟨l, hl, heq⟩ := strides_concat view.itemsize lead n
      exact ⟨l.map fun n : ℕ ↦ (n : ℤ), by rw [List.length_map, hl], by simp [heq]⟩
    | some strides =>
      have hlength := (h.length_strides strides hview).trans h.ndim_eq
      obtain ⟨l, stride, rfl⟩ := List.eq_nil_or_concat strides |>.resolve_left (by
        rintro rfl
        simp at hlength)
      exact ⟨l, by simpa using hlength, by simp⟩
  have hsuboffsets : ∃ l : List (Option ℤ), l.length = lead.length ∧
      view.suboffsetList = l ++ [view.lastSuboffset] := by
    rw [suboffsetList, lastSuboffset]
    cases hview : view.suboffsets with
    | none =>
      refine ⟨List.replicate lead.length none, List.length_replicate, ?_⟩
      rw [h.ndim_eq, List.replicate_succ']
      rfl
    | some suboffsets =>
      have hlength := (h.length_suboffsets suboffsets hview).trans h.ndim_eq
      obtain ⟨l, suboffset, rfl⟩ := List.eq_nil_or_concat suboffsets |>.resolve_left (by
        rintro rfl
        simp at hlength)
      exact ⟨l.map some, by simpa using hlength, by simp⟩
  obtain ⟨l, hl, heq⟩ := hstrides
  obtain ⟨l', hl', heq'⟩ := hsuboffsets
  refine ⟨l.zip l', by rw [List.length_zip, hl, hl', Nat.min_self], ?_⟩
  rw [dimensions, heq, heq', List.zip_append (hl.trans hl'.symm)]
  rfl

/-- An address in a row, by the last dimension. -/
theorem HasShape.itemAddress_concat (h : view.HasShape lead n) (deref : ℤ → ℤ) {p : List ℕ}
    (hp : p.length = lead.length) (i : ℕ) :
    itemAddress deref view.buf (view.dimensions (lead ++ [n])) (p ++ [i]) =
      advance deref (view.rowPointer deref (lead ++ [n]) p)
        (view.lastStride, view.lastSuboffset, i) := by
  obtain ⟨dimensions, hlength, heq⟩ := h.dimensions_eq
  rw [rowPointer, heq, List.dropLast_concat,
    JPPyBuffer.itemAddress_concat deref view.buf (hp.trans hlength.symm)]

/-- The addresses in a row are equally far apart exactly if its pointers are. -/
theorem advance_eq_iff (deref : ℤ → ℤ) (pointer stride : ℤ) {suboffset : Option ℤ}
    (hsuboffset : ¬suboffset.any (0 < ·)) (i : ℕ) :
    advance deref pointer (stride, suboffset, 0) + i * stride =
        advance deref pointer (stride, suboffset, i) ↔
      (suboffset = some 0 → deref (pointer + stride * i) = deref pointer + stride * i) := by
  have hzero : pointer + stride * ((0 : ℕ) : ℤ) = pointer := by simp
  cases suboffset with
  | none => simp [advance, mul_comm]
  | some suboffset =>
    have hle : suboffset ≤ 0 := by simpa using hsuboffset
    simp only [advance, hzero, Option.some.injEq]
    rcases hle.lt_or_eq with hlt | rfl
    · simp [not_le.2 hlt, hlt.ne, mul_comm]
    · simp [mul_comm, eq_comm]

/-- The loop for a buffer. -/
def frame (view : JPPyBuffer) (deref : ℤ → ℤ) (convert : ℤ → α) (zero : α) (lead : List ℕ)
    (n slots base : ℕ) : IntakeFrame α where
  view := view
  deref := deref
  convert := convert
  zero := zero
  lead := lead
  last := n
  step := view.lastStride
  slots := slots
  base := base

section Result

variable {deref : ℤ → ℤ} {convert : ℤ → α} {zero : α}

/-- `convertMultiArray` returns exactly if the sizes are not negative, there is room for a
sub-array, and the loop ends with a result. -/
theorem HasShape.convertMultiArray_iff (h : view.HasShape lead n) {subs base : ℤ}
    {intake : Intake α} :
    (∃ fuel, convertMultiArray fuel view deref (some convert) zero subs base =
        some (.ok intake)) ↔
      ∃ slots size : ℕ, subs = slots ∧ base = size ∧ slots ≠ 0 ∧
        Ends (view.frame deref convert zero lead n slots size).body
          ((view.frame deref convert zero lead n slots size).inRow (origin lead) [] [] 0)
          (.ok intake) := by
  have hstart : ∀ slots size : ℕ, slots ≠ 0 →
      startIntake view deref (some convert) zero slots size =
        .ok (view.frame deref convert zero lead n slots size,
          (view.frame deref convert zero lead n slots size).inRow (origin lead) [] [] 0) := by
    intro slots size hslots
    have hnat : ∀ k : ℕ, newArrayOf k = .ok k := fun k ↦ if_neg (not_lt.2 (Int.natCast_nonneg k))
    simp only [startIntake, hnat, h.shape_eq, List.dropLast_concat, frame, bind, Except.bind,
      if_neg hslots, IntakeFrame.inRow, IntakeFrame.rowStart, progression_zero, List.map_nil,
      List.append_nil, Nat.cast_zero, zero_mul, add_zero, List.getLastD_concat]
    rfl
  constructor
  · rintro ⟨fuel, hrun⟩
    have hsubs : 0 ≤ subs := by
      by_contra hneg
      simp [convertMultiArray, startIntake, newArrayOf, not_le.1 hneg, bind, Except.bind] at hrun
    have hbase : 0 ≤ base := by
      by_contra hneg
      simp [convertMultiArray, startIntake, newArrayOf, not_lt.2 hsubs, not_le.1 hneg, bind,
        Except.bind] at hrun
    obtain ⟨slots, rfl⟩ := Int.eq_ofNat_of_zero_le hsubs
    obtain ⟨size, rfl⟩ := Int.eq_ofNat_of_zero_le hbase
    have hslots : slots ≠ 0 := by
      rintro rfl
      simp [convertMultiArray, startIntake, newArrayOf, not_lt.2 hbase, bind, Except.bind] at hrun
    rw [convertMultiArray, hstart slots size hslots] at hrun
    exact ⟨slots, size, rfl, rfl, hslots, fuel, hrun⟩
  · rintro ⟨slots, size, rfl, rfl, hslots, fuel, hrun⟩
    exact ⟨fuel, by rw [convertMultiArray, hstart slots size hslots]; exact hrun⟩

/-- With the sizes of the buffer, the loop takes in each row from its start in equal steps. -/
theorem HasShape.ends_frame (h : view.HasShape lead n) :
    Ends (view.frame deref convert zero lead n lead.prod n).body
      ((view.frame deref convert zero lead n lead.prod n).inRow (origin lead) [] [] 0)
      (.ok ⟨(tuples lead).map fun p ↦ some
          (((view.frame deref convert zero lead n lead.prod n).rowReads p).map convert),
        (tuples lead).flatMap (view.frame deref convert zero lead n lead.prod n).rowReads⟩) := by
  obtain ⟨rest, hrest, hcounts⟩ := counts_tuples fun m hm ↦
    h.pos m (List.mem_append_left [n] hm)
  have hlength := length_tuples lead
  rw [hrest, List.length_cons] at hlength
  have hfits : (view.frame deref convert zero lead n lead.prod n).Fits :=
    ⟨rfl, h.pos n (List.mem_append_right lead List.mem_cons_self)⟩
  have hrows := @IntakeFrame.ends_rows α _ hfits _ _ hcounts
    (fun q hq ↦ (mem_tuples.1 (hrest ▸ hq)).length_eq) [] [] (by
      rw [List.length_nil, Nat.zero_add]
      exact hlength)
  rw [List.nil_append, List.nil_append, List.map_map, ← hrest] at hrows
  exact hrows

/-- The sizes of the result are those that were asked for. -/
theorem sized_of_ends {slots size : ℕ} (hslots : slots ≠ 0) {intake : Intake α}
    (hends : Ends (view.frame deref convert zero lead n slots size).body
      ((view.frame deref convert zero lead n slots size).inRow (origin lead) [] [] 0)
      (.ok intake)) :
    intake.contents.length = slots ∧ ∀ row, some row ∈ intake.contents → row.length = size := by
  have hinit : (view.frame deref convert zero lead n slots size).Sized
      ((view.frame deref convert zero lead n slots size).inRow (origin lead) [] [] 0) :=
    ⟨Nat.zero_le _, Nat.pos_of_ne_zero hslots, fun row hrow ↦ absurd hrow List.not_mem_nil⟩
  have hlast : ∀ s result, (view.frame deref convert zero lead n slots size).Sized s →
      (view.frame deref convert zero lead n slots size).body s = .inr result →
        ∀ intake', result = .ok intake' → intake'.contents.length = slots ∧
          ∀ row, some row ∈ intake'.contents → row.length = size := by
    rintro s result hs hbody intake' rfl
    exact hs.contents hbody
  exact Ends.invariant (fun s s' hs hnext ↦ IntakeFrame.Sized.body hs hnext) hlast hinit hends
    intake rfl

/-- The addresses of a row are those that the loop reads exactly if the row is even. -/
theorem HasShape.rowReads_eq_iff (h : view.HasShape lead n)
    (hsuboffset : ¬view.lastSuboffset.any (0 < ·)) {p : List ℕ} (hp : Within p lead) :
    (view.frame deref convert zero lead n lead.prod n).rowReads p =
        (List.range n).map (fun i ↦
          itemAddress deref view.buf (view.dimensions (lead ++ [n])) (p ++ [i])) ↔
      ∀ i < n, view.lastSuboffset = some 0 →
        deref (view.rowPointer deref (lead ++ [n]) p + view.lastStride * i) =
          deref (view.rowPointer deref (lead ++ [n]) p) + view.lastStride * i := by
  have hwithin : Within (p ++ [0]) (lead ++ [n]) := by
    rw [← mem_tuples, tuples_concat, List.mem_flatMap]
    refine ⟨p, mem_tuples.2 hp, List.mem_map.2 ⟨0, List.mem_range.2 ?_, rfl⟩⟩
    exact h.pos n (List.mem_append_right lead List.mem_cons_self)
  have hstart : (view.frame deref convert zero lead n lead.prod n).rowStart p =
      advance deref (view.rowPointer deref (lead ++ [n]) p)
        (view.lastStride, view.lastSuboffset, 0) := by
    rw [← h.itemAddress_concat deref hp.length_eq]
    exact h.getBufferPtr_eq deref hwithin
  rw [IntakeFrame.rowReads, hstart]
  show progression _ view.lastStride n = _ ↔ _
  rw [progression, List.map_inj_left]
  simp only [List.mem_range, h.itemAddress_concat deref hp.length_eq]
  exact forall₂_congr fun i _ ↦ advance_eq_iff deref _ _ hsuboffset i

/-- The loop reads the items in row-major order exactly if all rows are even. -/
theorem HasShape.reads_eq_iff (h : view.HasShape lead n)
    (hsuboffset : ¬view.lastSuboffset.any (0 < ·)) :
    (tuples lead).flatMap (view.frame deref convert zero lead n lead.prod n).rowReads =
        view.addresses deref (lead ++ [n]) ↔ view.EvenRows deref lead n := by
  have hlength : ∀ p ∈ tuples lead,
      ((view.frame deref convert zero lead n lead.prod n).rowReads p).length =
        ((List.range n).map (fun i ↦
          itemAddress deref view.buf (view.dimensions (lead ++ [n])) (p ++ [i]))).length := by
    intro p _
    rw [IntakeFrame.rowReads, length_progression, List.length_map, List.length_range]
    rfl
  have haddresses : view.addresses deref (lead ++ [n]) = (tuples lead).flatMap fun p ↦
      (List.range n).map fun i ↦
        itemAddress deref view.buf (view.dimensions (lead ++ [n])) (p ++ [i]) := by
    simp only [addresses, tuples_concat, List.map_flatMap, List.map_map, Function.comp_def]
  rw [haddresses, flatMap_eq_iff_of_length_eq hlength]
  constructor
  · intro hrows hzero p hp i hi
    exact (h.rowReads_eq_iff hsuboffset hp).1 (hrows p (mem_tuples.2 hp)) i hi hzero
  · intro heven p hp
    have hwithin := mem_tuples.1 hp
    exact (h.rowReads_eq_iff hsuboffset hwithin).2 fun i hi hzero ↦ heven hzero p hwithin i hi

end Result

theorem toInt32_eq_iff (k : ℕ) : JPArrayView.toInt32 k = k ↔ k < 2147483648 := by
  constructor
  · intro h
    have := JPArrayView.toInt32_lt k
    omega
  · exact fun h ↦ JPArrayView.toInt32_eq (Int.natCast_nonneg k) (by omega)

theorem HasShape.convertBuffer_eq (h : view.HasShape lead n)
    (hsuboffset : ¬view.lastSuboffset.any (0 < ·)) {little : Bool} {dtype : Option PrimitiveType}
    {cls : PrimitiveType} (hcls : bufferClass view dtype = .ok cls) {converter : Converter}
    (hconverter : getConverter little view.format view.itemsize cls = some converter)
    (fuel : ℕ) (deref : ℤ → ℤ) (read : Converter → ℤ → α) (zero : α) :
    convertBuffer fuel little view dtype deref read zero =
      convertMultiArray fuel view deref (some (read converter)) zero
        (JPArrayView.toInt32 lead.prod) (JPArrayView.toInt32 n) := by
  simp only [convertBuffer, if_neg hsuboffset, hcls, hconverter, h.shape_eq, Option.map_some,
    List.dropLast_concat, List.getLastD_concat]

end JPPyBuffer

section Supported

open JPPyBuffer

variable {little : Bool} {view : JPPyBuffer} {lead : List ℕ} {n : ℕ}
  {dtype : Option PrimitiveType} {cls : PrimitiveType} {converter : Converter}

theorem even_of_takesInRowMajor (h : view.HasShape lead n)
    (hsuboffset : ¬view.lastSuboffset.any (0 < ·)) (hcls : bufferClass view dtype = .ok cls)
    (hconverter : getConverter little view.format view.itemsize cls = some converter)
    {deref : ℤ → ℤ} {read : Converter → ℤ → α} {zero : α} {fuel : ℕ} {intake : Intake α}
    (hrun : convertBuffer fuel little view dtype deref read zero = some (.ok intake))
    (hintake : intake.TakesInRowMajor (read converter) lead n
      (view.addresses deref (lead ++ [n]))) :
    lead.prod < 2147483648 ∧ n < 2147483648 ∧ view.EvenRows deref lead n := by
  have hprod : 0 < lead.prod :=
    List.prod_pos fun m hm ↦ h.pos m (List.mem_append_left [n] hm)
  rw [h.convertBuffer_eq hsuboffset hcls hconverter] at hrun
  obtain ⟨slots, size, hslots, hsize, hne, hresult⟩ := h.convertMultiArray_iff.1 ⟨fuel, hrun⟩
  obtain ⟨hlength, hrows⟩ := sized_of_ends hne hresult
  -- The result has the sizes of the buffer, so the conversion to `int` has not changed them.
  obtain rfl : lead.prod = slots := hintake.length_contents.symm.trans hlength
  obtain ⟨part, hpart⟩ := List.exists_mem_of_length_pos (hlength ▸ hprod)
  obtain ⟨row, rfl, hrow⟩ := hintake.length_rows part hpart
  obtain rfl : n = size := hrow.symm.trans (hrows row hpart)
  have heq := hresult.unique h.ends_frame
  refine ⟨(toInt32_eq_iff _).1 hslots, (toInt32_eq_iff _).1 hsize, ?_⟩
  rw [← h.reads_eq_iff hsuboffset, ← hintake.reads_eq, Except.ok.inj heq]

theorem takesInRowMajor_of_even (h : view.HasShape lead n)
    (hsuboffset : ¬view.lastSuboffset.any (0 < ·)) (hcls : bufferClass view dtype = .ok cls)
    (hconverter : getConverter little view.format view.itemsize cls = some converter)
    {deref : ℤ → ℤ} (hlead : lead.prod < 2147483648) (hn : n < 2147483648)
    (heven : view.EvenRows deref lead n) (read : Converter → ℤ → α) (zero : α) :
    ∃ fuel intake, convertBuffer fuel little view dtype deref read zero = some (.ok intake) ∧
      intake.TakesInRowMajor (read converter) lead n (view.addresses deref (lead ++ [n])) := by
  have hprod : 0 < lead.prod :=
    List.prod_pos fun m hm ↦ h.pos m (List.mem_append_left [n] hm)
  have hends := @HasShape.ends_frame α view lead n deref (read converter) zero h
  obtain ⟨fuel, hfuel⟩ := h.convertMultiArray_iff.2
    ⟨lead.prod, n, (toInt32_eq_iff _).2 hlead, (toInt32_eq_iff _).2 hn, hprod.ne', hends⟩
  have hrun := h.convertBuffer_eq hsuboffset hcls hconverter fuel deref read zero
  have hreads :=
    (@HasShape.reads_eq_iff α view lead n deref (read converter) zero h hsuboffset).2 heven
  refine ⟨fuel, _, hrun.trans hfuel, ?_, ?_, ?_, hreads⟩
  · rw [List.length_map, length_tuples]
  · intro part hpart
    obtain ⟨p, hp, rfl⟩ := List.mem_map.1 hpart
    refine ⟨_, rfl, ?_⟩
    rw [List.length_map, IntakeFrame.rowReads, length_progression]
    rfl
  · rw [← hreads, List.map_map, List.map_flatMap, List.flatMap_def]
    rfl

/-- For a buffer of a class with a converter, where the last dimension does not go through
pointers with an offset: the loop ends and takes in every item in row-major order exactly if an
`int` holds the number of rows and their length, and all rows are even. -/
theorem takesInRowMajor_iff (h : view.HasShape lead n)
    (hsuboffset : ¬view.lastSuboffset.any (0 < ·)) (hcls : bufferClass view dtype = .ok cls)
    (hconverter : getConverter little view.format view.itemsize cls = some converter)
    (deref : ℤ → ℤ) (read : Converter → ℤ → α) (zero : α) :
    (∃ fuel intake, convertBuffer fuel little view dtype deref read zero = some (.ok intake) ∧
        intake.TakesInRowMajor (read converter) lead n (view.addresses deref (lead ++ [n]))) ↔
      lead.prod < 2147483648 ∧ n < 2147483648 ∧ view.EvenRows deref lead n := by
  constructor
  · rintro ⟨fuel, intake, hrun, hintake⟩
    exact even_of_takesInRowMajor h hsuboffset hcls hconverter hrun hintake
  · rintro ⟨hlead, hn, heven⟩
    exact takesInRowMajor_of_even h hsuboffset hcls hconverter hlead hn heven read zero

end Supported

/-- Two rows of two items, the last row first in memory. -/
def bottomUp : JPPyBuffer where
  buf := 8
  len := 16
  itemsize := 4
  format := some ['i']
  ndim := 2
  shape := some [2, 2]
  strides := some [-8, 4]
  suboffsets := none

theorem bottomUp_hasShape : bottomUp.HasShape [2] 2 where
  shape_eq := rfl
  ndim_eq := rfl
  pos := by decide
  length_strides strides h := Option.some.inj h ▸ rfl
  length_suboffsets _ h := absurd h (Option.some_ne_none _).symm
  suboffsets_of_strides _ := rfl

theorem bottomUp_taken :
    ∃ fuel intake, convertBuffer fuel true bottomUp none (fun _ ↦ 0) (fun _ a ↦ a) 0 =
        some (.ok intake) ∧
      intake.TakesInRowMajor (fun a ↦ a) [2] 2 (bottomUp.addresses (fun _ ↦ 0) [2, 2]) :=
  (@takesInRowMajor_iff ℤ true bottomUp [2] 2 none .int ⟨.int32, false, .int⟩ bottomUp_hasShape
    (by decide) rfl rfl (fun _ ↦ 0) (fun _ a ↦ a) 0).2
    ⟨by decide, by decide, fun h ↦ absurd h (Option.some_ne_none 0).symm⟩

/-- Two pointers, each to an item. -/
def pointerRow : JPPyBuffer where
  buf := 0
  len := 8
  itemsize := 4
  format := some ['i']
  ndim := 1
  shape := some [2]
  strides := some [8]
  suboffsets := some [0]

/-- The first item is at 100, the second at 200. -/
def pointers (address : ℤ) : ℤ :=
  if address = 0 then 100 else 200

theorem pointerRow_hasShape : pointerRow.HasShape [] 2 where
  shape_eq := rfl
  ndim_eq := rfl
  pos := by decide
  length_strides strides h := Option.some.inj h ▸ rfl
  length_suboffsets suboffsets h := Option.some.inj h ▸ rfl
  suboffsets_of_strides h := absurd h (Option.some_ne_none _)

/-- The buffer is accepted, but its second item is read next to the first. -/
theorem pointerRow_not_taken :
    pointerRow.HasShape [] 2 ∧
      convertBuffer 3 true pointerRow none pointers (fun _ a ↦ a) 0 =
        some (.ok ⟨[some [100, 108]], [100, 108]⟩) ∧
      ¬∃ fuel intake, convertBuffer fuel true pointerRow none pointers (fun _ a ↦ a) 0 =
          some (.ok intake) ∧
        intake.TakesInRowMajor (fun a ↦ a) [] 2 (pointerRow.addresses pointers [2]) := by
  refine ⟨pointerRow_hasShape, by decide, ?_⟩
  rintro ⟨fuel, intake, hrun, hintake⟩
  obtain ⟨-, -, heven⟩ := @even_of_takesInRowMajor ℤ true pointerRow [] 2 none .int
    ⟨.int32, false, .int⟩ pointerRow_hasShape (by decide) rfl rfl _ _ _ _ _ hrun hintake
  exact absurd (heven rfl [] List.Forall₂.nil 1 (by decide)) (by decide)

end JPype
