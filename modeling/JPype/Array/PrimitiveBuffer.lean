import JPype.Array.BufferExport

/-!
# Buffers of arrays of one dimension

The buffer of a primitive array of one dimension is the memory that Java gives for it, with the
start, the step and the length of the slice. `PyJPArrayPrimitive_getBuffer` leaves out what is not
requested, and refuses a slice with a step if the strides are not. It has no look at the requests
for contiguous buffers, which ask for the strides as well. `honours_iff` has the condition under
which the buffer is the one that has been requested.
-/

open Foundation

namespace JPype

/-- `PyBUF_C_CONTIGUOUS` -/
def pyBufCContiguous : ℕ := 0x38

/-- `PyBUF_F_CONTIGUOUS` -/
def pyBufFContiguous : ℕ := 0x58

/-- `PyBUF_ANY_CONTIGUOUS` -/
def pyBufAnyContiguous : ℕ := 0x98

/-- The fields of a `Py_buffer` of one dimension; addresses are relative to the memory of the
view. A field that is not requested is null. -/
structure LinearBuffer where
  buf : ℤ
  len : ℤ
  itemsize : ℕ
  shape : Option ℤ
  strides : Option ℤ
  format : Option String
  readonly : Bool
  deriving DecidableEq

/-- A `JPArrayView` of an array: the memory that Java gives has the items of the array. -/
structure LinearView (α : Type) where
  memory : List α
  buffer : LinearBuffer
  refCount : ℤ

variable {α : Type}

namespace LinearView

/-- The constructor from an array. -/
def ofArray (type : PrimitiveType) (array : JPArray) (elements : List α) : LinearView α where
  memory := elements
  buffer := {
    buf := type.getItemSize * array.start
    len := array.length * type.getItemSize
    itemsize := type.getItemSize
    shape := some array.length
    strides := some (type.getItemSize * array.step)
    format := some type.getBufferFormat
    readonly := true }
  refCount := 0

/-- `reference` -/
def reference (view : LinearView α) : LinearView α :=
  { view with refCount := view.refCount + 1 }

/-- `PyJPArray_releaseBuffer`, of a view, while the machine runs. -/
def release (view : LinearView α) : Option (LinearView α) :=
  let view := { view with refCount := view.refCount - 1 }
  if view.refCount = 0 then none else some view

end LinearView

/-- The buffer without the fields that are not requested. -/
def LinearBuffer.restrict (buffer : LinearBuffer) (flags : ℕ) : LinearBuffer :=
  { buffer with
    readonly := true
    strides := if requested flags pyBufStrides then buffer.strides else none
    shape := if requested flags pyBufNd then buffer.shape else none
    format := if requested flags pyBufFormat then buffer.format else none }

/-- `PyJPArrayPrimitive_getBuffer`, with the view of the array object before and after. `elements`
is what Java gives for the array, or an exception. -/
def PyJPArrayPrimitive.getBuffer (type : PrimitiveType) (self : JPArray)
    (elements : Option (List α)) (mView : Option (LinearView α)) (flags : ℕ) :
    Except PyError LinearBuffer × Option (LinearView α) :=
  if requested flags pyBufWriteable then
    (.error (.bufferError "Java array buffer is not writable"), mView)
  else
    match mView <|> elements.map (LinearView.ofArray type self) with
    | none => (.error (.bufferError "Java array view failed"), mView)
    | some view =>
      let view := view.reference
      if requested flags pyBufStrides = false ∧
          view.buffer.strides ≠ some (view.buffer.itemsize : ℤ) then
        (.error (.bufferError "Java array view failed"), view.release)
      else (.ok (view.buffer.restrict flags), some view)

/-! ### What a consumer reads -/

namespace LinearBuffer

/-- The number of items: that of the shape, or what the length has room for. -/
def count (b : LinearBuffer) : ℤ :=
  b.shape.getD (b.len / b.itemsize)

/-- The distance of two items: without strides a buffer is contiguous. -/
def stride (b : LinearBuffer) : ℤ :=
  b.strides.getD b.itemsize

/-- The item at an address in memory. -/
def load (itemsize : ℕ) (memory : List α) (address : ℤ) : Option α :=
  if address % itemsize = 0 ∧ 0 ≤ address then memory[(address / itemsize).toNat]? else none

/-- What a consumer reads, in order; where an address is not inside the memory there is nothing. -/
def read (b : LinearBuffer) (memory : List α) : List (Option α) :=
  (progression b.buf b.stride b.count.toNat).map (load b.itemsize memory)

/-- Items without gaps, in either order of the dimensions. -/
def Contiguous (b : LinearBuffer) : Prop :=
  b.count ≤ 1 ∨ b.stride = b.itemsize

end LinearBuffer

/-- A request for a contiguous buffer, in whatever order. -/
def DemandsContiguous (flags : ℕ) : Prop :=
  requested flags pyBufCContiguous ∨ requested flags pyBufFContiguous ∨
    requested flags pyBufAnyContiguous

/-- The number of buffers that a view counts. -/
def viewCount (mView : Option (LinearView α)) : ℤ :=
  (mView.map (·.refCount)).getD 0

/-- What a request is to give: the items, in a contiguous buffer if that is demanded, or a
`BufferError`, and no other count. -/
def Honours (items : List α) (mView : Option (LinearView α)) (flags : ℕ) :
    Except PyError LinearBuffer × Option (LinearView α) → Prop
  | (.ok b, mView') => (∃ view ∈ mView', b.read view.memory = items.map some) ∧
      (DemandsContiguous flags → b.Contiguous)
  | (.error e, mView') => (∃ message, e = .bufferError message) ∧
      viewCount mView' = viewCount mView

/-- A view of the array as it was when the view was made. -/
def KeptFrom (type : PrimitiveType) (self : JPArray) (array : JavaArray α) (view : LinearView α) :
    Prop :=
  view.memory.length = array.elements.length ∧
    view.buffer = (LinearView.ofArray type self view.memory).buffer

/-- The requests that are refused. -/
def Refused (self : JPArray) (elements : Option (List α)) (mView : Option (LinearView α))
    (flags : ℕ) : Prop :=
  requested flags pyBufWriteable = true ∨ (mView = none ∧ elements = none) ∨
    (requested flags pyBufStrides = false ∧ self.step ≠ 1)

/-- The positions in bytes. -/
theorem progression_mul (c a t : ℤ) (n : ℕ) :
    progression (c * a) (c * t) n = (progression a t n).map (c * ·) := by
  rw [progression, progression, List.map_map]
  refine List.map_congr_left fun k _ ↦ ?_
  simp only [Function.comp_apply]
  ring

/-- A request for some fields is one for a part of them. -/
theorem requested_of_and_eq {flags bits part : ℕ} (hpart : bits &&& part = part)
    (h : requested flags bits = true) : requested flags part = true := by
  rw [requested, beq_iff_eq] at h ⊢
  calc flags &&& part = flags &&& (bits &&& part) := by rw [hpart]
    _ = flags &&& bits &&& part := (Nat.and_assoc _ _ _).symm
    _ = part := by rw [h, hpart]

theorem DemandsContiguous.requested_strides {flags : ℕ} (h : DemandsContiguous flags) :
    requested flags pyBufStrides = true := by
  obtain h | h | h := h
  all_goals exact requested_of_and_eq (by decide) h

theorem load_mul (itemsize : ℕ) (hsize : 0 < itemsize) (memory : List α) (k : ℕ) :
    LinearBuffer.load itemsize memory (itemsize * (k : ℤ)) = memory[k]? := by
  have hne : (itemsize : ℤ) ≠ 0 := by omega
  rw [LinearBuffer.load, if_pos ⟨Int.mul_emod_right _ _, by positivity⟩,
    Int.mul_ediv_cancel_left _ hne, Int.toNat_natCast]

section Requests

variable {type : PrimitiveType} {self : JPArray} {array : JavaArray α} {base : List ℕ}
  {view : LinearView α} {flags : ℕ}

/-- The strides of a view are those of a contiguous buffer exactly without a step. -/
theorem strides_eq_iff (hview : KeptFrom type self array view) :
    view.buffer.strides = some (view.buffer.itemsize : ℤ) ↔ self.step = 1 := by
  have hsize := type.getItemSize_pos
  rw [hview.2]
  simp only [LinearView.ofArray, Option.some.injEq]
  constructor
  · intro h
    have hne : (type.getItemSize : ℤ) ≠ 0 := by omega
    exact mul_left_cancel₀ hne (h.trans (mul_one _).symm)
  · rintro h
    rw [h, mul_one]

/-- What has been granted is read at the positions of the slice. -/
theorem read_restrict (htracks : self.Tracks array.elements.length base)
    (hview : KeptFrom type self array view)
    (hgranted : ¬(requested flags pyBufStrides = false ∧ self.step ≠ 1)) :
    (view.buffer.restrict flags).read view.memory = base.map (view.memory[·]?) := by
  have hsize := type.getItemSize_pos
  have hcount : (view.buffer.restrict flags).count = self.length := by
    rw [hview.2]
    cases hnd : requested flags pyBufNd with
    | true => simp [LinearBuffer.count, LinearBuffer.restrict, LinearView.ofArray, hnd]
    | false =>
      have hne : (type.getItemSize : ℤ) ≠ 0 := by omega
      simp [LinearBuffer.count, LinearBuffer.restrict, LinearView.ofArray, hnd,
        Int.mul_ediv_cancel _ hne]
  have hstride : (view.buffer.restrict flags).stride = type.getItemSize * self.step := by
    rw [hview.2]
    cases hstrides : requested flags pyBufStrides with
    | true => simp [LinearBuffer.stride, LinearBuffer.restrict, LinearView.ofArray, hstrides]
    | false =>
      have hstep : self.step = 1 := by
        by_contra h
        exact hgranted ⟨hstrides, h⟩
      simp [LinearBuffer.stride, LinearBuffer.restrict, LinearView.ofArray, hstrides, hstep]
  have hpositions : progression (view.buffer.restrict flags).buf
      (view.buffer.restrict flags).stride (view.buffer.restrict flags).count.toNat =
        base.map fun k : ℕ ↦ (type.getItemSize : ℤ) * k := by
    have hbuf : (view.buffer.restrict flags).buf = type.getItemSize * self.start := by
      rw [LinearBuffer.restrict, hview.2]
      rfl
    have hbase := htracks.positions_eq
    rw [JPArray.positions] at hbase
    rw [hcount, hstride, hbuf, progression_mul, hbase, List.map_map]
    rfl
  rw [LinearBuffer.read, hpositions, List.map_map]
  refine List.map_congr_left fun k _ ↦ ?_
  have hitemsize : (view.buffer.restrict flags).itemsize = type.getItemSize := by
    rw [LinearBuffer.restrict, hview.2]
    rfl
  rw [hitemsize]
  exact load_mul _ hsize _ k

/-- The view of a request: the kept one, or a new one. -/
theorem exists_view {mView : Option (LinearView α)} {elements : Option (List α)}
    (hkept : ∀ view ∈ mView, KeptFrom type self array view)
    (helements : ∀ l ∈ elements, l = array.elements)
    (hview : ¬(mView = none ∧ elements = none)) :
    ∃ view, (mView <|> elements.map (LinearView.ofArray type self)) = some view ∧
      KeptFrom type self array view ∧ viewCount mView = view.refCount ∧
        view.memory = (mView.map (·.memory)).getD array.elements := by
  cases mView with
  | some view => exact ⟨view, rfl, hkept view rfl, rfl, rfl⟩
  | none =>
    cases elements with
    | none => exact absurd ⟨rfl, rfl⟩ hview
    | some l =>
      obtain rfl := helements l rfl
      exact ⟨_, rfl, ⟨rfl, rfl⟩, rfl, rfl⟩

theorem viewCount_release (view : LinearView α) :
    viewCount view.reference.release = view.refCount := by
  rw [LinearView.release, LinearView.reference]
  by_cases hzero : view.refCount = 0
  · simp [viewCount, hzero]
  · simp [viewCount, hzero]

/-- What a request comes to, for the view that it takes. -/
theorem getBuffer_eq {mView : Option (LinearView α)} {elements : Option (List α)}
    (hwriteable : requested flags pyBufWriteable = false)
    (hfrom : (mView <|> elements.map (LinearView.ofArray type self)) = some view)
    (hview : KeptFrom type self array view) :
    PyJPArrayPrimitive.getBuffer type self elements mView flags =
      if requested flags pyBufStrides = false ∧ self.step ≠ 1 then
        (.error (.bufferError "Java array view failed"), view.reference.release)
      else (.ok (view.buffer.restrict flags), some view.reference) := by
  have hstrides : view.reference.buffer.strides ≠ some (view.reference.buffer.itemsize : ℤ) ↔
      self.step ≠ 1 := not_congr (strides_eq_iff hview)
  rw [PyJPArrayPrimitive.getBuffer, hwriteable, hfrom]
  simp only [Bool.false_eq_true, if_false, hstrides]
  rfl

/-- A request that is refused. -/
theorem honours_refused {mView : Option (LinearView α)} {elements : Option (List α)}
    (hrefused : Refused self elements mView flags)
    (hkept : ∀ view ∈ mView, KeptFrom type self array view)
    (helements : ∀ l ∈ elements, l = array.elements) (items : List α) :
    Honours items mView flags
      (PyJPArrayPrimitive.getBuffer type self elements mView flags) := by
  cases hwriteable : requested flags pyBufWriteable with
  | true =>
    rw [PyJPArrayPrimitive.getBuffer, hwriteable]
    exact ⟨⟨_, rfl⟩, rfl⟩
  | false =>
    by_cases hnone : mView = none ∧ elements = none
    · obtain ⟨rfl, rfl⟩ := hnone
      rw [PyJPArrayPrimitive.getBuffer, hwriteable]
      exact ⟨⟨_, rfl⟩, rfl⟩
    · obtain ⟨view, hfrom, hview, hcount, -⟩ := exists_view hkept helements hnone
      have hstrides : requested flags pyBufStrides = false ∧ self.step ≠ 1 := by
        obtain h | h | h := hrefused
        · rw [hwriteable] at h
          exact absurd h (by decide)
        · exact absurd h hnone
        · exact h
      rw [getBuffer_eq hwriteable hfrom hview, if_pos hstrides]
      exact ⟨⟨_, rfl⟩, (viewCount_release view).trans hcount.symm⟩

/-- The layout of a granted buffer. -/
theorem contiguous_restrict_iff (hview : KeptFrom type self array view)
    (hstrides : requested flags pyBufStrides = true) :
    (view.buffer.restrict flags).Contiguous ↔ self.length ≤ 1 ∨ self.step = 1 := by
  have hnd : requested flags pyBufNd = true := requested_of_and_eq (by decide) hstrides
  have hcount : (view.buffer.restrict flags).count = self.length := by
    rw [hview.2]
    simp [LinearBuffer.count, LinearBuffer.restrict, LinearView.ofArray, hnd]
  have hstride : (view.buffer.restrict flags).stride = (view.buffer.restrict flags).itemsize ↔
      self.step = 1 := by
    rw [← strides_eq_iff hview, hview.2]
    simp [LinearBuffer.stride, LinearBuffer.restrict, LinearView.ofArray, hstrides]
  rw [LinearBuffer.Contiguous, hcount, hstride]

end Requests

/-- **Requests for buffers of a slice**: they are honoured exactly if they are refused, or if a
contiguous buffer is demanded only of a slice without a step or with at most one item, and the view
that is kept, if there is one, has the present items of the slice. -/
theorem honours_iff (type : PrimitiveType) (array : JavaArray α) (slices : List PySlice)
    (self : JPArray) (items : List α) (elements : Option (List α)) (mView : Option (LinearView α))
    (flags : ℕ) (hself : PyJPArray.getSlices slices (.ofValue array) = .ok self)
    (hitems : PySlice.chain slices array.elements = .ok items)
    (hkept : ∀ view ∈ mView, KeptFrom type self array view)
    (helements : ∀ l ∈ elements, l = array.elements) :
    Honours items mView flags
        (PyJPArrayPrimitive.getBuffer type self elements mView flags) ↔
      Refused self elements mView flags ∨
        (DemandsContiguous flags → items.length ≤ 1 ∨ self.step = 1) ∧
          ∀ view ∈ mView, PySlice.chain slices view.memory = .ok items := by
  by_cases hrefused : Refused self elements mView flags
  · exact ⟨fun _ ↦ .inl hrefused, fun _ ↦ honours_refused hrefused hkept helements items⟩
  obtain ⟨hwriteable, hnone, hstrides⟩ : requested flags pyBufWriteable = false ∧
      ¬(mView = none ∧ elements = none) ∧
        ¬(requested flags pyBufStrides = false ∧ self.step ≠ 1) := by
    rw [Refused, not_or, not_or, Bool.not_eq_true] at hrefused
    exact hrefused
  obtain ⟨view, hfrom, hview, -, hmemory⟩ := exists_view hkept helements hnone
  obtain ⟨base, hbase, htracks⟩ : ∃ base,
      PySlice.chain slices (List.range array.elements.length) = .ok base ∧
        self.Tracks array.elements.length base := by
    have hagree := JPArray.Tracks.agree_getSlices array.length_le slices (.ofValue array)
    rw [hself] at hagree
    exact hagree.exists_of_ok
  -- The items of a list of that length, at the positions of the slice.
  have hchain : ∀ l : List α, l.length = array.elements.length →
      (PySlice.chain slices l).map (List.map some) = .ok (base.map (l[·]?)) := by
    intro l hl
    rw [PySlice.chain_elements, hl, hbase]
    rfl
  have hlength : self.length = items.length := by
    have h := hchain _ rfl
    rw [hitems] at h
    have hlen := congrArg List.length (Except.ok.inj h)
    rw [List.length_map, List.length_map] at hlen
    rw [htracks.length_eq, hlen]
  have hread : (view.buffer.restrict flags).read view.memory = items.map some ↔
      PySlice.chain slices view.memory = .ok items := by
    have h := hchain view.memory hview.1
    rw [read_restrict htracks hview hstrides]
    constructor
    · intro hmap
      rw [hmap] at h
      cases hc : PySlice.chain slices view.memory with
      | error e =>
        rw [hc] at h
        cases h
      | ok l =>
        rw [hc] at h
        rw [List.map_injective_iff.2 (Option.some_injective α) (Except.ok.inj h)]
    · intro hc
      rw [hc] at h
      exact (Except.ok.inj h).symm
  have hcontiguous : (DemandsContiguous flags → (view.buffer.restrict flags).Contiguous) ↔
      (DemandsContiguous flags → items.length ≤ 1 ∨ self.step = 1) := by
    refine forall_congr' fun hdemand ↦ ?_
    rw [contiguous_restrict_iff hview hdemand.requested_strides, hlength, Nat.cast_le_one]
  have hkeptItems : PySlice.chain slices view.memory = .ok items ↔
      ∀ view ∈ mView, PySlice.chain slices view.memory = .ok items := by
    rw [hmemory]
    cases mView with
    | none => exact ⟨fun _ ↦ nofun, fun _ ↦ hitems⟩
    | some kept => exact ⟨fun h _ hview ↦ Option.some.inj hview ▸ h, fun h ↦ h kept rfl⟩
  rw [getBuffer_eq hwriteable hfrom hview, if_neg hstrides]
  constructor
  · rintro ⟨⟨view', hview', hr⟩, hc⟩
    obtain rfl := Option.some.inj hview'
    exact .inr ⟨hcontiguous.1 hc, hkeptItems.1 (hread.1 hr)⟩
  · rintro (h | ⟨hc, hk⟩)
    · exact absurd h hrefused
    · exact ⟨⟨view.reference, rfl, hread.2 (hkeptItems.2 hk)⟩, hcontiguous.2 hc⟩

/-- `[::2]`. -/
def everySecond : PySlice :=
  ⟨none, none, some 2⟩

/-- A contiguous buffer of the whole array. -/
theorem fourInts_honours :
    Honours fourInts.elements none pyBufCContiguous
      (PyJPArrayPrimitive.getBuffer .int (.ofValue fourInts) (some fourInts.elements) none
        pyBufCContiguous) :=
  (honours_iff .int fourInts [] (.ofValue fourInts) fourInts.elements (some fourInts.elements) none
    pyBufCContiguous rfl rfl nofun fun _ h ↦ (Option.some.inj h).symm).2
      (.inr ⟨fun _ ↦ .inr rfl, nofun⟩)

/-- A contiguous buffer of every second item is granted, and it has a stride of 8. -/
theorem everySecond_not_contiguous :
    ∃ self b view, PyJPArray.getSlices [everySecond] (.ofValue fourInts) = .ok self ∧
      PySlice.chain [everySecond] fourInts.elements = .ok [10, 12] ∧
      PyJPArrayPrimitive.getBuffer .int self (some fourInts.elements) none pyBufCContiguous =
        (.ok b, some view) ∧
      b.itemsize = 4 ∧ b.count = 2 ∧ b.stride = 8 ∧
      ¬Honours [10, 12] none pyBufCContiguous
        (PyJPArrayPrimitive.getBuffer .int self
          (some fourInts.elements) none pyBufCContiguous) := by
  refine ⟨_, _, _, rfl, rfl, rfl, rfl, rfl, rfl, fun h ↦ ?_⟩
  obtain hcount | hstride := h.2 (.inl (by decide))
  · exact absurd hcount (by decide)
  · exact absurd hstride (by decide)

end JPype
