import JPype.Foundation.Agreement
import JPype.Foundation.Progression
import Mathlib.Data.List.Basic

/-!
# Python slices

What a slice selects from a list is documented with unbounded integers (`slice.indices`):
`PySlice.indices` and `PySlice.of` say that. Extension code such as the array type computes with
`Py_ssize_t` instead, by `PySlice_Unpack` and `PySlice_AdjustIndices`. The two agree on every
sequence that is shorter than the largest step (`sliceIndices_eq`): a step beyond the range of
`Py_ssize_t` is clamped to a smaller one, but either step leaves at most one element.
-/

namespace JPype

open Foundation

/-- The Python exceptions of the array operations, with their texts. `raised` stands for one
that comes from code that is called, by its name, and `fault` for an index outside the Java array
that reaches the Java virtual machine, or for a pointer that is null. -/
inductive PyError where
  | indexError (message : String)
  | valueError (message : String)
  | typeError (message : String)
  | bufferError (message : String)
  | overflowError (message : String)
  | raised (exception : String)
  | fault
  deriving DecidableEq, Repr

/-- A slice object; a part that is not given is `None`. -/
structure PySlice where
  start : Option ℤ
  stop : Option ℤ
  step : Option ℤ
  deriving DecidableEq, Repr

namespace PySlice

/-! ### What a slice selects -/

/-- The step of a slice. -/
def stepOf (s : PySlice) : ℤ :=
  s.step.getD 1

/-- The least bound of a slice. -/
def lower (step : ℤ) : ℤ :=
  if step < 0 then -1 else 0

/-- The greatest bound of a slice of a sequence of the given length. -/
def upper (length step : ℤ) : ℤ :=
  if step < 0 then length - 1 else length

/-- The bound `i` of a slice: counted from the end if negative, between `lower` and `upper`. -/
def clip (length step i : ℤ) : ℤ :=
  if i < 0 then max (i + length) (lower step) else min i (upper length step)

/-- The start of `slice.indices(length)`, as documented. -/
def startOf (s : PySlice) (length : ℤ) : ℤ :=
  match s.start with
  | none => if s.stepOf < 0 then upper length s.stepOf else lower s.stepOf
  | some i => clip length s.stepOf i

/-- The stop of `slice.indices(length)`, as documented. -/
def stopOf (s : PySlice) (length : ℤ) : ℤ :=
  match s.stop with
  | none => if s.stepOf < 0 then lower s.stepOf else upper length s.stepOf
  | some i => clip length s.stepOf i

/-- The number of positions a slice selects. -/
def count (s : PySlice) (length : ℤ) : ℕ :=
  rangeLength (s.startOf length) (s.stopOf length) s.stepOf

/-- The positions a slice selects, `range(*slice.indices(length))`. -/
def positions (s : PySlice) (length : ℤ) : List ℤ :=
  progression (s.startOf length) s.stepOf (s.count length)

/-- The elements a slice selects from a list. -/
def select {α : Type*} (s : PySlice) (l : List α) : List α :=
  (s.positions l.length).filterMap fun i ↦ l[i.toNat]?

/-- `l[s]` for a Python list `l`. -/
def of {α : Type*} (s : PySlice) (l : List α) : Except PyError (List α) :=
  if s.step = some 0 then .error (.valueError "slice step cannot be zero") else .ok (s.select l)

/-- A chain of slices of a Python list, `l[s₁][s₂]…`. -/
def chain {α : Type*} (slices : List PySlice) (l : List α) : Except PyError (List α) :=
  slices.foldlM (fun l s ↦ s.of l) l

/-! ### `PySlice_Unpack` and `PySlice_AdjustIndices` -/

/-- `PY_SSIZE_T_MAX`. -/
def ssizeMax : ℤ := 9223372036854775807

/-- `PY_SSIZE_T_MIN`. -/
def ssizeMin : ℤ := -9223372036854775808

/-- `_PyEval_SliceIndex`: a bound or step that does not fit is clamped. -/
def evalSliceIndex (i : ℤ) : ℤ :=
  max ssizeMin (min i ssizeMax)

/-- The step that `PySlice_Unpack` reports; its negation has to fit as well. -/
def unpackStep (s : PySlice) : ℤ :=
  match s.step with
  | none => 1
  | some i => max (-ssizeMax) (evalSliceIndex i)

/-- `PySlice_Unpack`: start, stop and step. -/
def unpack (s : PySlice) : Except PyError (ℤ × ℤ × ℤ) :=
  let step := s.unpackStep
  if step = 0 then .error (.valueError "slice step cannot be zero")
  else
    let start := match s.start with
      | none => if step < 0 then ssizeMax else 0
      | some i => evalSliceIndex i
    let stop := match s.stop with
      | none => if step < 0 then ssizeMin else ssizeMax
      | some i => evalSliceIndex i
    .ok (start, stop, step)

/-- A bound as `PySlice_AdjustIndices` adjusts it; the two bounds are treated alike. -/
def adjustIndex (length step i : ℤ) : ℤ :=
  if i < 0 then
    let i := i + length
    if i < 0 then (if step < 0 then -1 else 0) else i
  else if length ≤ i then (if step < 0 then length - 1 else length)
  else i

/-- The value of `PySlice_AdjustIndices`, from the adjusted bounds. -/
def sliceLength (start stop step : ℤ) : ℤ :=
  if step < 0 then
    if stop < start then (start - stop - 1).tdiv (-step) + 1 else 0
  else
    if start < stop then (stop - start - 1).tdiv step + 1 else 0

/-- `PySlice_AdjustIndices`: the adjusted bounds, and the length of the slice. -/
def adjustIndices (length start stop step : ℤ) : ℤ × ℤ × ℤ :=
  let start := adjustIndex length step start
  let stop := adjustIndex length step stop
  (start, stop, sliceLength start stop step)

/-! ### The positions selected -/

theorem stepOf_ne_zero {s : PySlice} (h : s.step ≠ some 0) : s.stepOf ≠ 0 := by
  rw [stepOf]
  cases hs : s.step with
  | none => exact one_ne_zero
  | some i =>
    rw [Option.getD_some]
    rintro rfl
    exact h hs

theorem clip_bounds {length : ℤ} (hl : 0 ≤ length) (step i : ℤ) :
    lower step ≤ clip length step i ∧ clip length step i ≤ upper length step := by
  unfold clip lower upper
  split_ifs <;> omega

theorem startOf_bounds (s : PySlice) {length : ℤ} (hl : 0 ≤ length) :
    lower s.stepOf ≤ s.startOf length ∧ s.startOf length ≤ upper length s.stepOf := by
  unfold startOf
  cases s.start with
  | none =>
    simp only [lower, upper]
    split_ifs <;> omega
  | some i => exact clip_bounds hl _ i

theorem stopOf_bounds (s : PySlice) {length : ℤ} (hl : 0 ≤ length) :
    lower s.stepOf ≤ s.stopOf length ∧ s.stopOf length ≤ upper length s.stepOf := by
  unfold stopOf
  cases s.stop with
  | none =>
    simp only [lower, upper]
    split_ifs <;> omega
  | some i => exact clip_bounds hl _ i

/-- A slice selects positions of the sequence only. -/
theorem mem_positions_bounds {s : PySlice} (h : s.step ≠ some 0) {length : ℤ} (hl : 0 ≤ length)
    {i : ℤ} (hi : i ∈ s.positions length) : 0 ≤ i ∧ i < length := by
  obtain ⟨k, hk, rfl⟩ := mem_progression.1 hi
  obtain ⟨hstart, hstart'⟩ := s.startOf_bounds hl
  obtain ⟨hstop, hstop'⟩ := s.stopOf_bounds hl
  have hin := (lt_rangeLength_iff (stepOf_ne_zero h) k).1 hk
  have hk0 : (0 : ℤ) ≤ k := Int.natCast_nonneg k
  unfold lower upper at *
  split_ifs at * with hneg hpos
  · omega
  · have hmul : (k : ℤ) * s.stepOf ≤ 0 := mul_nonpos_of_nonneg_of_nonpos hk0 (by omega)
    omega
  · have hmul : 0 ≤ (k : ℤ) * s.stepOf := mul_nonneg hk0 (by omega)
    omega
  · exact absurd (stepOf_ne_zero h) (by omega)

/-- What is said of each element at its position is said of the elements selected. -/
theorem map_select {α β : Type*} {s : PySlice} (h : s.step ≠ some 0) {l : List α} (f : α → β)
    (g : ℤ → β) (hg : ∀ k : ℕ, k < l.length → l[k]?.map f = some (g k)) :
    (s.select l).map f = (s.positions l.length).map g := by
  rw [select, List.map_filterMap, ← List.filterMap_eq_map]
  refine List.filterMap_congr fun i hi ↦ ?_
  obtain ⟨hi0, hil⟩ := mem_positions_bounds h (Int.natCast_nonneg _) hi
  obtain ⟨k, rfl⟩ := Int.eq_ofNat_of_zero_le hi0
  exact hg k (by omega)

theorem length_select {α : Type*} {s : PySlice} (h : s.step ≠ some 0) (l : List α) :
    (s.select l).length = s.count l.length := by
  have hmap := map_select h (l := l) (fun _ ↦ ()) (fun _ ↦ ()) fun k hk ↦ by
    rw [List.getElem?_eq_getElem hk, Option.map_some]
  have hlen := congrArg List.length hmap
  rwa [List.length_map, List.length_map, positions, length_progression] at hlen

theorem select_subset {α : Type*} (s : PySlice) (l : List α) : s.select l ⊆ l := by
  intro x hx
  obtain ⟨i, -, hi⟩ := List.mem_filterMap.1 hx
  exact List.mem_of_getElem? hi

/-- Slicing looks at positions only, never at elements. -/
theorem select_map {α β : Type*} (s : PySlice) (f : α → β) (l : List α) :
    s.select (l.map f) = (s.select l).map f := by
  rw [select, select, List.map_filterMap, List.length_map]
  simp only [List.getElem?_map]

theorem of_map {α β : Type*} (s : PySlice) (f : α → β) (l : List α) :
    s.of (l.map f) = (s.of l).map (List.map f) := by
  rw [of, of, select_map]
  split_ifs <;> rfl

theorem chain_cons {α : Type*} (s : PySlice) (slices : List PySlice) (l : List α) :
    chain (s :: slices) l = s.of l >>= chain slices :=
  rfl

theorem chain_map {α β : Type*} (slices : List PySlice) (f : α → β) (l : List α) :
    chain slices (l.map f) = (chain slices l).map (List.map f) := by
  induction slices generalizing l with
  | nil => rfl
  | cons s slices ih =>
    rw [chain_cons, chain_cons, of_map]
    cases s.of l with
    | error e => rfl
    | ok l' => exact ih l'

/-! ### The two computations agree -/

theorem adjustIndex_evalSliceIndex {length step step' : ℤ} (hl : 0 ≤ length)
    (hmax : length ≤ ssizeMax) (hsign : step' < 0 ↔ step < 0) (i : ℤ) :
    adjustIndex length step' (evalSliceIndex i) = clip length step i := by
  simp only [adjustIndex, evalSliceIndex, clip, lower, upper, ssizeMin, ssizeMax] at *
  split_ifs <;> omega

theorem sliceLength_eq {start stop step : ℤ} (hs : step ≠ 0) :
    sliceLength start stop step = rangeLength start stop step := by
  have hdiv {d s : ℤ} (hs : 0 < s) (hd : 0 < d) : (d - 1).tdiv s + 1 = multiplesBelow d s := by
    have hq : 0 ≤ (d - 1) / s := Int.ediv_nonneg (by omega) hs.le
    rw [multiplesBelow, show d + s - 1 = d - 1 + 1 * s by ring, Int.add_mul_ediv_right _ _ hs.ne',
      Int.tdiv_eq_ediv_of_nonneg (by omega), Int.toNat_of_nonneg (by omega)]
  rw [sliceLength]
  split_ifs with hneg hlt hlt
  · rw [rangeLength_of_neg hneg, hdiv (neg_pos.2 hneg) (by omega)]
  · rw [rangeLength_of_neg hneg, multiplesBelow_of_nonpos (neg_pos.2 hneg) (by omega)]
    rfl
  · rw [rangeLength_of_pos (by omega), hdiv (by omega) (by omega)]
  · rw [rangeLength_of_pos (by omega), multiplesBelow_of_nonpos (by omega) (by omega)]
    rfl

theorem unpackStep_spec (s : PySlice) :
    (s.unpackStep = 0 ↔ s.step = some 0) ∧ (s.unpackStep < 0 ↔ s.stepOf < 0) ∧
      (s.unpackStep = s.stepOf ∨
        (ssizeMax ≤ s.unpackStep ∧ ssizeMax ≤ s.stepOf) ∨
        (s.unpackStep ≤ -ssizeMax ∧ s.stepOf ≤ -ssizeMax)) := by
  simp only [unpackStep, stepOf]
  cases s.step with
  | none => simp
  | some i =>
    simp only [Option.getD_some, Option.some.injEq, evalSliceIndex, ssizeMin, ssizeMax]
    omega

/-- The range selected spans no more than the sequence. -/
theorem span_le (s : PySlice) {length : ℤ} (hl : 0 ≤ length) :
    s.stopOf length - s.startOf length ≤ length ∧
      s.startOf length - s.stopOf length ≤ length := by
  obtain ⟨hstart, hstart'⟩ := s.startOf_bounds hl
  obtain ⟨hstop, hstop'⟩ := s.stopOf_bounds hl
  simp only [lower, upper] at *
  split_ifs at * <;> omega

/-- With the clamped step as many positions are selected. -/
theorem rangeLength_unpackStep (s : PySlice) {length : ℤ} (hl : 0 ≤ length)
    (hmax : length ≤ ssizeMax) :
    rangeLength (s.startOf length) (s.stopOf length) s.unpackStep = s.count length := by
  obtain ⟨-, -, hstep | ⟨hs, hs'⟩ | ⟨hs, hs'⟩⟩ := s.unpackStep_spec
  · rw [hstep, count]
  all_goals
    obtain ⟨hspan, hspan'⟩ := s.span_le hl
    have hpos : 0 < ssizeMax := by decide
  · rw [count, rangeLength_of_pos (by omega), rangeLength_of_pos (by omega)]
    exact multiplesBelow_congr (by omega) (by omega) (by omega) (by omega)
  · rw [count, rangeLength_of_neg (by omega), rangeLength_of_neg (by omega)]
    exact multiplesBelow_congr (by omega) (by omega) (by omega) (by omega)

/-- With the clamped step the same positions are selected. -/
theorem progression_unpackStep (s : PySlice) {length : ℤ} (hl : 0 ≤ length)
    (hmax : length ≤ ssizeMax) :
    progression (s.startOf length) s.unpackStep (s.count length) = s.positions length := by
  obtain ⟨-, -, hstep | ⟨hs, hs'⟩ | ⟨hs, hs'⟩⟩ := s.unpackStep_spec
  · rw [hstep, positions]
  all_goals
    obtain ⟨hspan, hspan'⟩ := s.span_le hl
    have hpos : 0 < ssizeMax := by decide
    refine progression_congr_step ?_ _ _ _
  · rw [count, rangeLength_of_pos (by omega)]
    exact multiplesBelow_le_one (by omega) (by omega)
  · rw [count, rangeLength_of_neg (by omega)]
    exact multiplesBelow_le_one (by omega) (by omega)

/-- `PySlice_Unpack` and `PySlice_AdjustIndices` compute what `slice.indices` documents. -/
theorem unpack_adjustIndices {s : PySlice} (h : s.step ≠ some 0) {length : ℤ}
    (hl : 0 ≤ length) (hmax : length ≤ ssizeMax) :
    ∃ start stop, s.unpack = .ok (start, stop, s.unpackStep) ∧
      adjustIndices length start stop s.unpackStep =
        (s.startOf length, s.stopOf length, (s.count length : ℤ)) := by
  obtain ⟨hzero, hsign, -⟩ := s.unpackStep_spec
  have hne : s.unpackStep ≠ 0 := fun h0 ↦ h (hzero.1 h0)
  refine ⟨_, _, if_neg hne, ?_⟩
  have hstart : adjustIndex length s.unpackStep (match s.start with
      | none => if s.unpackStep < 0 then ssizeMax else 0
      | some i => evalSliceIndex i) = s.startOf length := by
    rw [startOf]
    cases s.start with
    | some i => exact adjustIndex_evalSliceIndex hl hmax hsign i
    | none =>
      simp only [adjustIndex, lower, upper, ssizeMax] at *
      split_ifs <;> omega
  have hstop : adjustIndex length s.unpackStep (match s.stop with
      | none => if s.unpackStep < 0 then ssizeMin else ssizeMax
      | some i => evalSliceIndex i) = s.stopOf length := by
    rw [stopOf]
    cases s.stop with
    | some i => exact adjustIndex_evalSliceIndex hl hmax hsign i
    | none =>
      simp only [adjustIndex, lower, upper, ssizeMin, ssizeMax] at *
      split_ifs <;> omega
  rw [adjustIndices, hstart, hstop, sliceLength_eq hne, s.rangeLength_unpackStep hl hmax]

theorem unpack_of_step_zero {s : PySlice} (h : s.step = some 0) :
    s.unpack = .error (.valueError "slice step cannot be zero") :=
  if_pos (s.unpackStep_spec.1.2 h)

end PySlice

end JPype
