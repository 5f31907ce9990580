import JPype.Array.View
import JPype.Foundation.FixedWidth

/-!
# Indexing and slicing at machine width

A `jsize` has 32 bits and a `Py_ssize_t` has 64. The array type takes its indices and slices as
`Py_ssize_t`, converts them, and computes the parts of a view with `jsize`. The functions here
are those of `Array.View` with every conversion and every signed operation of the source.
`getItem_exact_iff`, `setItem_exact_iff`, `getSlice_exact_iff` and `setRange_exact_iff` say for
which arguments this computes what the arithmetic on integers computes: the index has to fit, and
of a slice that selects anything the step of the new view and the numerator of its length have to
fit.
-/

namespace JPype

open Foundation

variable {Py α : Type}

namespace Jsize

/-- A view whose numbers the slice constructor has computed; a length below zero becomes zero. -/
def viewOf (start step length : ℤ) : JPArray where
  start := start
  step := step
  length := if length < 0 then 0 else length
  slice := true
  length_nonneg := by split_ifs <;> omega

/-- The slice constructor. -/
def ofSlice (inst : JPArray) (start stop step : ℤ) : Except (Stop PyError) JPArray := do
  let mStep ← signed 32 (step * inst.step)
  let offset ← signed 32 (inst.step * start)
  let mStart ← signed 32 (inst.start + offset)
  let difference ← signed 32 (stop - start)
  let rounded ← signed 32 (if 0 < step then difference - 1 else difference + 1)
  let numerator ← signed 32 (rounded + step)
  let mLength ← divide 32 numerator step
  return viewOf mStart mStep mLength

/-- The index of an item in the view, counted from the front. -/
def fromFront (self : JPArray) (ndx : ℤ) : Except (Stop PyError) ℤ :=
  if ndx < 0 then signed 32 (ndx + self.length) else .ok ndx

/-- The address of an item, `m_Start + ndx * m_Step`. -/
def address (self : JPArray) (ndx : ℤ) : Except (Stop PyError) ℤ := do
  let offset ← signed 32 (ndx * self.step)
  signed 32 (self.start + offset)

/-- `getItem`. -/
def getItem (comp : ComponentType Py α) (self : JPArray) (array : JavaArray α) (ndx : ℤ) :
    Except (Stop PyError) Py := do
  let ndx ← fromFront self ndx
  if self.length ≤ ndx ∨ ndx < 0 then
    raising (.error (.indexError "array index out of bounds"))
  else
    let index ← address self ndx
    raising (comp.getArrayItem array index)

/-- `setItem`. -/
def setItem (comp : ComponentType Py α) (self : JPArray) (array : JavaArray α) (ndx : ℤ)
    (val : Py) : Except (Stop PyError) (JavaArray α) := do
  let ndx ← fromFront self ndx
  if self.length ≤ ndx ∨ ndx < 0 then
    raising (.error (.indexError "java array assignment out of bounds"))
  else
    let index ← address self ndx
    raising (comp.setArrayItem array index val)

/-- The loop of `setArrayRange`; the index is advanced after the last item as well. -/
def storeItems (conv : Py → Except PyError α) (step : ℤ) :
    JavaArray α → ℤ → List Py → Except (Stop PyError) (JavaArray α)
  | array, _, [] => .ok array
  | array, index, val :: vals => do
    let array ← raising (conv val >>= array.store index)
    let index ← signed 32 (index + step)
    storeItems conv step array index vals

/-- `setArrayRange`. -/
def setArrayRange (comp : ComponentType Py α) (array : JavaArray α) (start step : ℤ)
    (vals : List Py) : Except (Stop PyError) (JavaArray α) :=
  if comp.isPrimitive then storeItems comp.readItem step array start vals
  else if vals.all comp.findJavaConversion then storeItems comp.convert step array start vals
  else raising (.error (.typeError comp.unableToConvert))

/-- `setRange`. -/
def setRange (comp : ComponentType Py α) (self : JPArray) (array : JavaArray α)
    (start length step : ℤ) (val : Assigned Py) : Except (Stop PyError) (JavaArray α) :=
  match val.items with
  | none => raising (.error (.typeError "can only assign a sequence"))
  | some vals =>
    if length ≠ vals.length then
      raising (.error (.valueError ("Slice assignment must be of equal lengths : " ++
        toString length ++ " != " ++ toString vals.length)))
    else do
      let offset ← signed 32 (self.step * start)
      let i0 ← signed 32 (self.start + offset)
      let stride ← signed 32 (self.step * step)
      setArrayRange comp array i0 stride vals

/-- `PyJPArray_getItem` of an index. -/
def getIndex (comp : ComponentType Py α) (self : JPArray) (array : JavaArray α) (i : ℤ)
    (c : Conversion) : Except (Stop PyError) Py := do
  let i ← raising (PyJPArray.asSsize i)
  let ndx ← c.narrow 32 i
  getItem comp self array ndx

/-- The slice constructor, from the bounds and the step as `Py_ssize_t`. -/
def newSlice (self : JPArray) (start stop step : ℤ) (c : Conversion) :
    Except (Stop PyError) JPArray := do
  let start ← c.narrow 32 start
  let stop ← c.narrow 32 stop
  let step ← c.narrow 32 step
  ofSlice self start stop step

/-- `PyJPArray_getItem` of a slice. An empty slice starts where the view starts. -/
def getSlice (self : JPArray) (s : PySlice) (c : Conversion) : Except (Stop PyError) JPArray := do
  let (start, stop, step) ← raising s.unpack
  let (start, stop, slicelength) := PySlice.adjustIndices self.getLength start stop step
  if slicelength ≤ 0 then newSlice self 0 0 1 c else newSlice self start stop step c

/-- `PyJPArray_assignSubscript` of an index. -/
def assignIndex (comp : ComponentType Py α) (self : JPArray) (array : JavaArray α) (i : ℤ)
    (value : Assigned Py) (c : Conversion) : Except (Stop PyError) (JavaArray α) := do
  if value.sameArray then
    raising (.error (.valueError "self assignment not support currently"))
  else
    let i ← raising (PyJPArray.asSsize i)
    let ndx ← c.narrow 32 i
    setItem comp self array ndx value.object

/-- `setRange`, from the numbers of the slice as `Py_ssize_t`. -/
def assignRange (comp : ComponentType Py α) (self : JPArray) (array : JavaArray α)
    (start slicelength step : ℤ) (value : Assigned Py) (c : Conversion) :
    Except (Stop PyError) (JavaArray α) := do
  let start ← c.narrow 32 start
  let slicelength ← c.narrow 32 slicelength
  let step ← c.narrow 32 step
  setRange comp self array start slicelength step value

/-- `PyJPArray_assignSubscript` of a slice. -/
def assignSlice (comp : ComponentType Py α) (self : JPArray) (array : JavaArray α) (s : PySlice)
    (value : Assigned Py) (c : Conversion) : Except (Stop PyError) (JavaArray α) := do
  if value.sameArray then
    raising (.error (.valueError "self assignment not support currently"))
  else
    let (start, stop, step) ← raising s.unpack
    let (start, _, slicelength) := PySlice.adjustIndices self.getLength start stop step
    if slicelength ≤ 0 then return array
    else assignRange comp self array start slicelength step value c

end Jsize

/-! ### Values that fit -/

theorem fits_jsize {x : ℤ} : Fits 32 x ↔ -2147483648 ≤ x ∧ x ≤ 2147483647 := by
  rw [Fits, Nat.add_one_sub_one]
  omega

namespace JPArray.Tracks

variable {n : ℕ} {view : JPArray} {base : List ℕ}

/-- Where a view has items its first one is at its start. -/
theorem start_bounds (h : view.Tracks n base) (hne : base ≠ []) :
    0 ≤ view.start ∧ view.start < n := by
  obtain ⟨p, base, rfl⟩ := List.exists_cons_of_ne_nil hne
  have hp : (p : ℤ) = view.start + (0 : ℕ) * view.step := h.cast_getElem rfl
  have hlt := h.lt_of_mem p List.mem_cons_self
  rw [Nat.cast_zero, zero_mul, add_zero] at hp
  omega

/-- The address of an item is computed exactly. -/
theorem offset_fits (h : view.Tracks n base) (hn : n ≤ 2147483647) {k : ℤ} (hk : 0 ≤ k)
    (hlt : k < view.length) : Fits 32 (k * view.step) ∧ Fits 32 (view.start + k * view.step) := by
  obtain ⟨k, rfl⟩ := Int.eq_ofNat_of_zero_le hk
  have hlen := h.length_eq
  have hk' : k < base.length := by omega
  obtain ⟨hstart, hstart'⟩ := h.start_bounds (List.ne_nil_of_length_pos (by omega))
  have haddress := h.cast_getElem (List.getElem?_eq_getElem hk')
  have hp := h.lt_of_mem _ (List.getElem_mem hk')
  rw [fits_jsize, fits_jsize]
  omega

end JPArray.Tracks

/-! ### Indices -/

namespace Jsize

/-- The outcome of reading an item: the element that the index names among the positions `base`,
or `IndexError`. -/
def ReadsItem (comp : ComponentType Py α) (array : JavaArray α) (base : List ℕ) (i : ℤ)
    (r : Except PyError Py) : Prop :=
  match (pyIndex base i).bind (array.elements[·]?) with
  | some x => r = .ok (comp.toPython x)
  | none => ∃ message, r = .error (.indexError message)

/-- The outcome of assigning an item: the value is converted and stored at the position that the
index names, or `IndexError`. An array is never assigned to itself. -/
def WritesItem (comp : ComponentType Py α) (array : JavaArray α) (base : List ℕ) (i : ℤ)
    (value : Assigned Py) (r : Except PyError (JavaArray α)) : Prop :=
  if value.sameArray then ∃ message, r = .error (.valueError message)
  else
    match pyIndex base i with
    | some k => r = (comp.matchConvert value.object).map (array.put k)
    | none => ∃ message, r = .error (.indexError message)

/-- Of an index that fits `Py_ssize_t` nothing is lost by the conversion to `jsize`. -/
def IndexFits (i : ℤ) : Prop :=
  PySlice.ssizeMin ≤ i ∧ i ≤ PySlice.ssizeMax → Fits 32 i

instance (i : ℤ) : Decidable (IndexFits i) :=
  inferInstanceAs (Decidable (_ → _))

section Index

variable {array : JavaArray α} {view : JPArray} {base : List ℕ}

theorem fromFront_eq (h : view.Tracks array.elements.length base) {i : ℤ} (hi : Fits 32 i) :
    fromFront view i = .ok (view.fromFront i) := by
  have hlen := h.length_eq
  have hle := h.length_le
  have hmax := array.length_le
  rw [fromFront, JPArray.fromFront]
  split_ifs with hneg
  · rw [fits_jsize] at hi
    exact signed_of_fits (fits_jsize.2 (by omega))
  · rfl

theorem address_eq (h : view.Tracks array.elements.length base) {ndx : ℤ}
    (hin : ¬(view.length ≤ ndx ∨ ndx < 0)) :
    address view ndx = .ok (view.start + ndx * view.step) := by
  obtain ⟨hoffset, haddress⟩ :=
    h.offset_fits array.length_le (k := ndx) (by omega) (by omega)
  rw [address, signed_of_fits hoffset]
  exact signed_of_fits haddress

/-- Where the index fits, `getItem` computes what it computes on integers. -/
theorem getItem_eq (comp : ComponentType Py α) (h : view.Tracks array.elements.length base)
    {i : ℤ} (hi : Fits 32 i) : getItem comp view array i = raising (view.getItem comp array i) := by
  rw [getItem, fromFront_eq h hi, JPArray.getItem]
  show (if _ then _ else _) = raising (if _ then _ else _)
  split_ifs with hout
  · rfl
  · rw [address_eq h hout]
    rfl

/-- Where the index fits, `setItem` computes what it computes on integers. -/
theorem setItem_eq (comp : ComponentType Py α) (h : view.Tracks array.elements.length base)
    {i : ℤ} (hi : Fits 32 i) (val : Py) :
    setItem comp view array i val = raising (view.setItem comp array i val) := by
  rw [setItem, fromFront_eq h hi, JPArray.setItem]
  show (if _ then _ else _) = raising (if _ then _ else _)
  split_ifs with hout
  · rfl
  · rw [address_eq h hout]
    rfl

/-- An operation that converts its index first is exact if and only if the index fits, once the
rest is. -/
theorem exact_index_iff {β : Type} {spec : Except PyError β → Prop}
    {f : ℤ → Except (Stop PyError) β} {i : ℤ}
    (hout : ¬(PySlice.ssizeMin ≤ i ∧ i ≤ PySlice.ssizeMax) →
      ∀ message, spec (.error (.indexError message)))
    (hin : Fits 32 i → Exact (fun _ ↦ f i) spec) :
    Exact (fun c ↦ do
      let i ← raising (PyJPArray.asSsize i)
      let ndx ← c.narrow 32 i
      f ndx) spec ↔ IndexFits i := by
  rw [IndexFits]
  by_cases hssize : PySlice.ssizeMin ≤ i ∧ i ≤ PySlice.ssizeMax
  · have hconv : PyJPArray.asSsize i = .ok i := if_neg (by omega)
    rw [hconv]
    show Exact (fun c ↦ c.narrow 32 i >>= f) spec ↔ _
    rw [exact_narrow_bind_iff (f := fun _ ↦ f) (by decide)]
    exact ⟨fun h _ ↦ h.1, fun h ↦ ⟨h hssize, hin (h hssize)⟩⟩
  · have hconv : PyJPArray.asSsize i =
        .error (.indexError "cannot fit 'int' into an index-sized integer") := if_pos (by omega)
    rw [hconv]
    refine iff_of_true ?_ fun h ↦ absurd h hssize
    exact exact_raising_iff.2 (hout hssize _)

/-- **`array[i]`** is exact if and only if the index fits. -/
theorem getIndex_exact_iff (comp : ComponentType Py α)
    (h : view.Tracks array.elements.length base) (i : ℤ) :
    Exact (getIndex comp view array i) (ReadsItem comp array base i) ↔ IndexFits i := by
  have hbase := h.length_le.trans array.length_le
  refine exact_index_iff (fun hssize message ↦ ?_) fun hi ↦ ?_
  · rw [ReadsItem, pyIndex_of_not_ssize hbase (by omega)]
    exact ⟨message, rfl⟩
  · rw [getItem_eq comp h hi, exact_raising_iff, h.getItem_eq comp, ReadsItem]
    cases (pyIndex base i).bind (array.elements[·]?) with
    | some x => rfl
    | none => exact ⟨_, rfl⟩

/-- What the machine does with an index that does not fit: it answers as Python does if the last
32 bits are an index outside the view. -/
theorem getIndex_wrapping_iff (comp : ComponentType Py α)
    (h : view.Tracks array.elements.length base) {i : ℤ} (hi : PySlice.ssizeMin ≤ i)
    (hi' : i ≤ PySlice.ssizeMax) (hfits : ¬Fits 32 i) :
    (∃ r, ReadsItem comp array base i r ∧
        getIndex comp view array i .wrapping = raising r) ↔
      pyIndex base (i.bmod (2 ^ 32)) = none := by
  have hconv : PyJPArray.asSsize i = .ok i := if_neg (by omega)
  have hbmod : Fits 32 (i.bmod (2 ^ 32)) := by
    have hlow := Int.le_bmod (x := i) (m := 2 ^ 32) (by decide)
    have hhigh := Int.bmod_lt (x := i) (m := 2 ^ 32) (by decide)
    rw [fits_jsize]
    omega
  have hrun : getIndex comp view array i .wrapping =
      raising (view.getItem comp array (i.bmod (2 ^ 32))) := by
    rw [getIndex, hconv, ← getItem_eq comp h hbmod]
    rfl
  have hnone : pyIndex base i = none := by
    have hle := h.length_le.trans array.length_le
    rw [fits_jsize] at hfits
    rw [pyIndex]
    split_ifs
    · rfl
    · omega
    · exact List.getElem?_eq_none (by omega)
  have hreads (r : Except PyError Py) :
      ReadsItem comp array base i r ↔ ∃ message, r = .error (.indexError message) := by
    rw [ReadsItem, hnone, Option.bind_none]
  simp only [hrun, h.getItem_eq comp, hreads]
  cases hitem : pyIndex base (i.bmod (2 ^ 32)) with
  | none => exact iff_of_true ⟨_, ⟨_, rfl⟩, rfl⟩ rfl
  | some k =>
    refine iff_of_false ?_ (Option.some_ne_none k)
    rintro ⟨r, ⟨message, rfl⟩, hraise⟩
    have hk : k < array.elements.length := by
      obtain ⟨-, hout⟩ | ⟨p, -, hsome, hp, -⟩ := pyIndex_eq h (i.bmod (2 ^ 32))
      · rw [hitem] at hout
        cases hout
      · rw [hitem] at hsome
        obtain rfl := Option.some.inj hsome
        exact hp
    rw [Option.bind_some, List.getElem?_eq_getElem hk] at hraise
    cases raising_injective hraise

/-- **`array[i] = value`** is exact if and only if the index fits, or it is not looked at. -/
theorem assignIndex_exact_iff (comp : ComponentType Py α)
    (h : view.Tracks array.elements.length base) (i : ℤ) (value : Assigned Py) :
    Exact (assignIndex comp view array i value) (WritesItem comp array base i value) ↔
      value.sameArray = false → IndexFits i := by
  have hbase := h.length_le.trans array.length_le
  unfold assignIndex
  by_cases hsame : value.sameArray = true
  · simp only [hsame, if_true]
    refine iff_of_true ?_ fun h ↦ absurd h (by decide)
    rw [exact_raising_iff, WritesItem, if_pos hsame]
    exact ⟨_, rfl⟩
  · simp only [hsame, Bool.false_eq_true, if_false]
    rw [exact_index_iff (fun hssize message ↦ ?_) fun hi ↦ ?_]
    · exact ⟨fun h _ ↦ h, fun h ↦ h trivial⟩
    · rw [WritesItem, if_neg hsame, pyIndex_of_not_ssize hbase (by omega)]
      exact ⟨message, rfl⟩
    · rw [setItem_eq comp h hi, exact_raising_iff, h.setItem_eq comp, WritesItem, if_neg hsame]
      cases pyIndex base i with
      | some k => rfl
      | none => exact ⟨_, rfl⟩

end Index

/-! ### Slices -/

/-- The numerator of the length that the slice constructor computes. -/
def numerator (length : ℤ) (s : PySlice) : ℤ :=
  let span := s.stopOf length - s.startOf length
  (if 0 < s.unpackStep then span - 1 else span + 1) + s.unpackStep

/-- The slice selects nothing, or the step of the new view and the numerator of its length
fit. -/
def SliceFits (self : JPArray) (s : PySlice) : Prop :=
  s.count self.length = 0 ∨
    Fits 32 (s.unpackStep * self.step) ∧ Fits 32 (numerator self.length s)

instance (self : JPArray) (s : PySlice) : Decidable (SliceFits self s) :=
  inferInstanceAs (Decidable (_ ∨ _))

/-- A view stands for the positions `base`, by a start and a step of type `jsize`. -/
structure Held (n : ℕ) (view : JPArray) (base : List ℕ) : Prop where
  tracks : view.Tracks n base
  start_fits : Fits 32 view.start
  step_fits : Fits 32 view.step

/-- The outcome of slicing: a view of the positions `base`. -/
def ViewsItems (n : ℕ) (base : List ℕ) (r : Except PyError JPArray) : Prop :=
  ∃ view, r = .ok view ∧ Held n view base

theorem viewOf_eq (inst : JPArray) (start stop step : ℤ) :
    viewOf (inst.start + inst.step * start) (step * inst.step)
      (((if 0 < step then stop - start - 1 else stop - start + 1) + step).tdiv step) =
        inst.ofSlice start stop step := by
  have hlength : ((if 0 < step then stop - start - 1 else stop - start + 1) + step).tdiv step =
      JPArray.sliceLength start stop step := by
    rw [JPArray.sliceLength]
    split_ifs <;> rfl
  rw [hlength]
  rfl

/-- What has to fit for the slice constructor to be exact. -/
theorem exact_newSlice_iff {self : JPArray} {start stop step : ℤ}
    {spec : Except PyError JPArray → Prop} :
    Exact (newSlice self start stop step) spec ↔
      Fits 32 start ∧ Fits 32 stop ∧ Fits 32 step ∧ Fits 32 (step * self.step) ∧
        Fits 32 (self.step * start) ∧ Fits 32 (self.start + self.step * start) ∧
        Fits 32 (stop - start) ∧
        Fits 32 (if 0 < step then stop - start - 1 else stop - start + 1) ∧
        Fits 32 ((if 0 < step then stop - start - 1 else stop - start + 1) + step) ∧ step ≠ 0 ∧
        Fits 32 (((if 0 < step then stop - start - 1 else stop - start + 1) + step).tdiv step) ∧
        spec (.ok (self.ofSlice start stop step)) := by
  have hw : 0 < 32 := by decide
  rw [← viewOf_eq]
  unfold newSlice ofSlice
  simp only [exact_narrow_bind_iff hw, exact_signed_bind_iff, exact_divide_bind_iff,
    exact_pure_iff]

variable {n : ℕ} {view : JPArray} {base : List ℕ} {s : PySlice}

theorem getSlice_eq (hmax : view.length ≤ PySlice.ssizeMax) (hs : s.step ≠ some 0)
    (c : Conversion) :
    getSlice view s c =
      if (s.count view.length : ℤ) ≤ 0 then newSlice view 0 0 1 c
      else newSlice view (s.startOf view.length) (s.stopOf view.length) s.unpackStep c := by
  obtain ⟨start, stop, hunpack, hadjust⟩ :=
    PySlice.unpack_adjustIndices hs view.length_nonneg hmax
  simp only [getSlice, hunpack, JPArray.getLength]
  show (match PySlice.adjustIndices view.length start stop s.unpackStep with
    | (start, stop, slicelength) => if slicelength ≤ 0 then newSlice view 0 0 1 c
      else newSlice view start stop s.unpackStep c) = _
  rw [hadjust]

theorem unpackStep_ne_zero (hs : s.step ≠ some 0) : s.unpackStep ≠ 0 :=
  fun h0 ↦ hs (s.unpackStep_spec.1.1 h0)

/-- What is known of the bounds of a slice that selects something. -/
theorem bounds_of_count (hs : s.step ≠ some 0) {length : ℤ} (hl : 0 ≤ length)
    (hmax : length ≤ PySlice.ssizeMax) (hcount : s.count length ≠ 0) :
    0 ≤ s.startOf length ∧ s.startOf length < length ∧ -1 ≤ s.stopOf length ∧
      s.stopOf length ≤ length ∧
      (0 < s.unpackStep ∧ s.startOf length < s.stopOf length ∨
        s.unpackStep < 0 ∧ s.stopOf length < s.startOf length) := by
  have hne := unpackStep_ne_zero hs
  have hfirst : s.startOf length ∈ s.positions length := by
    rw [PySlice.positions, mem_progression]
    exact ⟨0, by omega, by rw [Nat.cast_zero, zero_mul, add_zero]⟩
  obtain ⟨hstart, hstart'⟩ := PySlice.mem_positions_bounds hs hl hfirst
  obtain ⟨hstop, hstop'⟩ := s.stopOf_bounds hl
  have hroom : 0 < rangeLength (s.startOf length) (s.stopOf length) s.unpackStep := by
    rw [s.rangeLength_unpackStep hl hmax]
    omega
  have hlt := (lt_rangeLength_iff hne 0).1 hroom
  rw [Nat.cast_zero, zero_mul, add_zero] at hlt
  refine ⟨hstart, hstart', ?_, ?_, ?_⟩
  · rw [PySlice.lower] at hstop
    split_ifs at hstop <;> omega
  · rw [PySlice.upper] at hstop'
    split_ifs at hstop' <;> omega
  · split_ifs at hlt <;> omega

/-- The length that the slice constructor computes for a slice that selects something. -/
theorem quotient_eq (hs : s.step ≠ some 0) {length : ℤ} (hl : 0 ≤ length)
    (hmax : length ≤ PySlice.ssizeMax) (hcount : s.count length ≠ 0) :
    (numerator length s).tdiv s.unpackStep = s.count length := by
  have hlength : (JPArray.sliceLength (s.startOf length) (s.stopOf length)
      s.unpackStep).toNat = s.count length := by
    rw [JPArray.toNat_sliceLength (unpackStep_ne_zero hs), s.rangeLength_unpackStep hl hmax]
  have hquotient : (numerator length s).tdiv s.unpackStep =
      JPArray.sliceLength (s.startOf length) (s.stopOf length) s.unpackStep := by
    rw [numerator, JPArray.sliceLength]
    split_ifs <;> rfl
  rw [hquotient]
  omega

/-- **`array[start:stop:step]`** is exact if and only if the slice fits. -/
theorem getSlice_exact_iff (h : Held n view base) (hn : n ≤ 2147483647) (hs : s.step ≠ some 0) :
    Exact (getSlice view s) (ViewsItems n (s.select base)) ↔ SliceFits view s := by
  have hmax := h.tracks.length_le_ssizeMax hn
  have hl := view.length_nonneg
  have hlen := h.tracks.length_eq
  have hle := h.tracks.length_le
  obtain ⟨view', hview, htracks⟩ := h.tracks.getSlice hn hs
  rw [JPArray.getSlice_eq hmax hs] at hview
  rw [funext (getSlice_eq hmax hs), SliceFits]
  -- An empty slice is taken from 0 to 0 by 1, which always fits.
  by_cases hcount : s.count view.length = 0
  · rw [if_pos (by omega)] at hview
    obtain rfl := Except.ok.inj hview
    have hstep : Fits 32 (1 * view.step) := by
      rw [one_mul]
      exact h.step_fits
    have haddress : Fits 32 (view.start + view.step * 0) := by
      rw [mul_zero, add_zero]
      exact h.start_fits
    simp only [hcount, Nat.cast_zero, le_refl, if_true, true_or, iff_true]
    refine exact_newSlice_iff.2 ⟨by decide, by decide, by decide, hstep, ?_, haddress, by decide,
      by decide, by decide, by decide, by decide, _, rfl, htracks, haddress, hstep⟩
    rw [mul_zero]
    decide
  · have hpos : ¬(s.count view.length : ℤ) ≤ 0 := by omega
    rw [if_neg hpos] at hview
    obtain rfl := Except.ok.inj hview
    simp only [if_neg hpos, hcount, false_or]
    rw [exact_newSlice_iff]
    obtain ⟨hstart, hstart', hstop, hstop', hspan⟩ := bounds_of_count hs hl hmax hcount
    obtain ⟨hoffset, haddress⟩ := h.tracks.offset_fits hn hstart hstart'
    rw [mul_comm] at hoffset haddress
    -- Of all the operations only the step and the numerator can overflow.
    constructor
    · rintro ⟨-, -, -, hstep, -, -, -, -, hnumerator, -⟩
      exact ⟨hstep, hnumerator⟩
    · rintro ⟨hstep, hnumerator⟩
      have hquotient : Fits 32 ((numerator view.length s).tdiv s.unpackStep) := by
        have hselect := htracks.length_le
        rw [PySlice.length_select hs, ← hlen] at hselect
        rw [quotient_eq hs hl hmax hcount, fits_jsize]
        omega
      refine ⟨?_, ?_, ?_, hstep, hoffset, haddress, ?_, ?_, hnumerator, unpackStep_ne_zero hs,
        hquotient, _, rfl, htracks, haddress, hstep⟩
      all_goals
        rw [fits_jsize]
        rw [fits_jsize, numerator] at hnumerator
        split_ifs at * <;> omega

/-- The views that slices make of a Java array, if every slice taken fits. -/
inductive Reached (array : JavaArray α) : JPArray → List ℕ → Prop
  | whole : Reached array (JPArray.ofValue array) (List.range array.elements.length)
  | slice {view view' : JPArray} {base : List ℕ} {s : PySlice} (h : Reached array view base)
      (hs : s.step ≠ some 0) (hfits : SliceFits view s)
      (hview : getSlice view s .wrapping = .ok view') : Reached array view' (s.select base)

/-- Every view in such a run stands for the positions that Python selects. -/
theorem Reached.held {array : JavaArray α} (h : Reached array view base) :
    Held array.elements.length view base := by
  induction h with
  | whole => exact ⟨.ofValue array, (by decide : Fits 32 0), (by decide : Fits 32 1)⟩
  | @slice view view' base s _ hs hfits hview ih =>
    obtain ⟨r, ⟨view₁, rfl, hheld⟩, hrun⟩ := (getSlice_exact_iff ih array.length_le hs).2 hfits
    obtain rfl : view' = view₁ := Except.ok.inj (hview.symm.trans (hrun .wrapping))
    exact hheld

/-! ### Assignment to a slice -/

/-- The slice selects nothing, or its step fits, and so do the step between the positions and
the index after the last of them. -/
def RangeFits (self : JPArray) (s : PySlice) : Prop :=
  s.count self.length = 0 ∨
    Fits 32 s.unpackStep ∧ Fits 32 (self.step * s.unpackStep) ∧
      Fits 32 (self.start + self.step * s.startOf self.length +
        s.count self.length * (self.step * s.unpackStep))

instance (self : JPArray) (s : PySlice) : Decidable (RangeFits self s) :=
  inferInstanceAs (Decidable (_ ∨ _))

/-- The outcome of assigning items to the positions `base`. -/
def WritesRange (base : List ℕ) (xs : List α) (array : JavaArray α)
    (r : Except PyError (JavaArray α)) : Prop :=
  ∃ array', r = .ok array' ∧ Writes base xs array.elements array'.elements

section Range

variable {array : JavaArray α} {spec : Except PyError (JavaArray α) → Prop}

/-- The loop over the items is exact if and only if every index it comes to fits. -/
theorem exact_storeItems_iff {conv : Py → Except PyError α} {step : ℤ} {vals : List Py} :
    ∀ {array array' : JavaArray α} {index : ℤ},
      ComponentType.storeItems conv step array index vals = (array', .ok ()) →
      (Exact (fun _ ↦ storeItems conv step array index vals) spec ↔
        (∀ k < vals.length, Fits 32 (index + (k + 1 : ℕ) * step)) ∧ spec (.ok array')) := by
  induction vals with
  | nil =>
    intro array array' index h
    obtain rfl : array = array' := (Prod.mk.inj h).1
    refine exact_pure_iff.trans ⟨fun h ↦ ⟨fun k hk ↦ ?_, h⟩, fun h ↦ h.2⟩
    exact absurd hk (Nat.not_lt_zero k)
  | cons val vals ih =>
    intro array array' index h
    rw [ComponentType.storeItems] at h
    simp only [storeItems]
    generalize conv val >>= array.store index = stored at h ⊢
    cases stored with
    | error e => cases (Prod.mk.inj h).2
    | ok array₁ =>
      show Exact (fun _ ↦ signed 32 (index + step) >>= fun index ↦
        storeItems conv step array₁ index vals) spec ↔ _
      rw [exact_signed_bind_iff (f := fun _ index ↦ storeItems conv step array₁ index vals), ih h,
        ← and_assoc, List.length_cons, Nat.forall_lt_succ_left]
      refine and_congr_left fun _ ↦ and_congr ?_ (forall₂_congr fun k _ ↦ ?_)
      · rw [zero_add, Nat.cast_one, one_mul]
      · have hindex : index + step + (k + 1 : ℕ) * step = index + (k + 1 + 1 : ℕ) * step := by
          push_cast
          ring
        rw [hindex]

theorem exact_setArrayRange_iff {comp : ComponentType Py α} {array' : JavaArray α}
    {index step : ℤ} {vals : List Py}
    (h : comp.setArrayRange array index step vals = (array', .ok ())) :
    Exact (fun _ ↦ setArrayRange comp array index step vals) spec ↔
      (∀ k < vals.length, Fits 32 (index + (k + 1 : ℕ) * step)) ∧ spec (.ok array') := by
  rw [ComponentType.setArrayRange] at h
  unfold setArrayRange
  split_ifs at h ⊢ with hprim hall
  · generalize hstore : ComponentType.storeItems comp.readItem step array index vals = stored at h
    obtain ⟨array₁, e | u⟩ := stored
    · cases (Prod.mk.inj h).2
    · obtain rfl : array₁ = array' := (Prod.mk.inj h).1
      exact exact_storeItems_iff hstore
  · exact exact_storeItems_iff h
  · cases (Prod.mk.inj h).2

variable {view : JPArray} {base : List ℕ}

theorem assignSlice_eq (comp : ComponentType Py α) (hmax : view.length ≤ PySlice.ssizeMax)
    (hs : s.step ≠ some 0) {value : Assigned Py} (hother : value.sameArray = false)
    (c : Conversion) :
    assignSlice comp view array s value c =
      if (s.count view.length : ℤ) ≤ 0 then .ok array
      else assignRange comp view array (s.startOf view.length) (s.count view.length)
        s.unpackStep value c := by
  obtain ⟨start, stop, hunpack, hadjust⟩ :=
    PySlice.unpack_adjustIndices hs view.length_nonneg hmax
  simp only [assignSlice, hother, hunpack, JPArray.getLength, Bool.false_eq_true, if_false]
  show (match PySlice.adjustIndices view.length start stop s.unpackStep with
    | (start, _, slicelength) => if slicelength ≤ 0 then Except.ok array
      else assignRange comp view array start slicelength s.unpackStep value c) = _
  rw [hadjust]

/-- Every index that the loop comes to fits if the last one does. -/
theorem forall_index_fits_iff (h : view.Tracks array.elements.length base)
    (hs : s.step ≠ some 0) (hcount : s.count view.length ≠ 0) :
    (∀ k < s.count view.length, Fits 32 (view.start + view.step * s.startOf view.length +
        (k + 1 : ℕ) * (view.step * s.unpackStep))) ↔
      Fits 32 (view.start + view.step * s.startOf view.length +
        s.count view.length * (view.step * s.unpackStep)) := by
  have hmax := h.length_le_ssizeMax array.length_le
  refine ⟨fun hall ↦ ?_, fun hlast k hk ↦ ?_⟩
  · have hlast := hall (s.count view.length - 1) (by omega)
    rwa [Nat.sub_add_cancel (by omega)] at hlast
  · obtain hnext | hlast' := Nat.lt_or_ge (k + 1) (s.count view.length)
    · have hmem : view.start + view.step * s.startOf view.length +
          (k + 1 : ℕ) * (view.step * s.unpackStep) ∈ (s.select base).map (↑) := by
        rw [h.select_eq hmax hs, mem_progression]
        exact ⟨k + 1, hnext, by rw [mul_comm s.unpackStep]⟩
      obtain ⟨p, hp, hindex⟩ := List.mem_map.1 hmem
      have hlt := h.lt_of_mem p (s.select_subset base hp)
      have hle := array.length_le
      rw [← hindex, fits_jsize]
      omega
    · rwa [show k + 1 = s.count view.length by omega]

/-- **`array[start:stop:step] = values`**, of as many items as are selected, all of which
convert, is exact if and only if the slice and the index after it fit. -/
theorem assignSlice_exact_iff (comp : ComponentType Py α)
    (h : view.Tracks array.elements.length base) (hs : s.step ≠ some 0) {value : Assigned Py}
    {vals : List Py} {xs : List α} (hother : value.sameArray = false)
    (hitems : value.items = some vals)
    (hconv : vals.Forall₂ (fun val x ↦ comp.convertItem val = .ok x) xs)
    (hlen : vals.length = (s.select base).length) :
    Exact (assignSlice comp view array s value) (WritesRange (s.select base) xs array) ↔
      RangeFits view s := by
  have hw : 0 < 32 := by decide
  have hmax := h.length_le_ssizeMax array.length_le
  have hcount' : (s.select base).length = s.count view.length := by
    rw [PySlice.length_select hs, h.length_eq]
  rw [funext (assignSlice_eq comp hmax hs hother), RangeFits]
  by_cases hcount : s.count view.length = 0
  · simp only [hcount, Nat.cast_zero, le_refl, if_true, true_or, iff_true]
    rw [hcount] at hcount'
    have hnil : s.select base = [] := List.length_eq_zero_iff.1 hcount'
    rw [hnil] at hlen ⊢
    obtain rfl := List.length_eq_zero_iff.1 hlen
    obtain rfl := List.forall₂_nil_left_iff.1 hconv
    exact exact_pure_iff.2 ⟨array, rfl, .nil _⟩
  · obtain ⟨array', hrange, hwrites⟩ := h.setArrayRange_writes comp hs hconv hlen
    obtain ⟨hstart, hstart', -⟩ := bounds_of_count hs view.length_nonneg hmax hcount
    obtain ⟨hoffset, haddress⟩ := h.offset_fits array.length_le hstart hstart'
    rw [mul_comm] at hoffset haddress
    have hviews := h.length_eq
    have hbase := h.length_le
    have hle := array.length_le
    have hselect : (s.select base).length ≤ array.elements.length := by
      obtain ⟨view', -, hview⟩ := h.getSlice array.length_le hs
      exact hview.length_le
    have hstartFits : Fits 32 (s.startOf view.length) := fits_jsize.2 (by omega)
    have hcountFits : Fits 32 (s.count view.length : ℤ) := fits_jsize.2 (by omega)
    have hvals : ¬((s.count view.length : ℤ) ≠ vals.length) := not_not.2 (by omega)
    have hpos : ¬(s.count view.length : ℤ) ≤ 0 := by omega
    simp only [if_neg hpos, hcount, false_or, assignRange, setRange, hitems, if_neg hvals,
      exact_narrow_bind_iff hw, exact_signed_bind_iff, hstartFits, hcountFits, hoffset, haddress,
      true_and]
    refine and_congr_right fun _ ↦ and_congr_right fun _ ↦ ?_
    rw [exact_setArrayRange_iff hrange, show vals.length = s.count view.length by omega,
      forall_index_fits_iff h hs hcount]
    exact and_iff_left ⟨array', rfl, hwrites⟩

end Range

end Jsize

end JPype
