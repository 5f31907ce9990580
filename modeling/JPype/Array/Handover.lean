import JPype.Array.View
import JPype.Overload.Match

/-!
# Handing a view to Java

A slice lives on the Python side only: the Java slot of the array object holds the whole array,
and start, step and length are in its `JPArray`. Code that turns an array object into a Java
value has to build the slice. Of the four ways below the array constructor does; the conversions
pass the slot, and `clone` cuts the slot to the length of the view. `handover_iff` says which
views survive that: for the conversions the whole array in order (or backwards, if that makes no
difference), for `clone` a front part of it.
-/

namespace JPype

open Foundation

/-- A Python array object: the class and the Java array of its Java slot, and the part of the
array that it stands for. -/
structure ArrayObject (Cls α : Type) where
  javaClass : Cls
  slot : JavaArray α
  array : JPArray

variable {Cls Py α : Type}

namespace ArrayObject

/-- `PyJPArray_create`. -/
def create (javaClass : Cls) (value : JavaArray α) : ArrayObject Cls α where
  javaClass := javaClass
  slot := value
  array := .ofValue value

/-- `PyJPArray_getItem` of a slice: the slot is copied over as it is. -/
def getSlice (obj : ArrayObject Cls α) (s : PySlice) : Except PyError (ArrayObject Cls α) := do
  let view ← PyJPArray.getSlice obj.array s
  return { obj with array := view }

/-- A chain of slices of an array object. -/
def getSlices (slices : List PySlice) (obj : ArrayObject Cls α) :
    Except PyError (ArrayObject Cls α) :=
  slices.foldlM getSlice obj

/-- The items of an array object, as Python reads them one after the other. -/
def items (comp : ComponentType Py α) (obj : ArrayObject Cls α) : Except PyError (List Py) :=
  (List.range obj.array.getLength.toNat).mapM fun i : ℕ ↦ obj.array.getItem comp obj.slot i

end ArrayObject

namespace JavaArray

/-- `new T[length]`; `zero` is the default of the component type. -/
def newArray (zero : α) (length : ℤ) : Except PyError (JavaArray α) :=
  if h : length.toNat ≤ 2147483647 then
    .ok ⟨List.replicate length.toNat zero, by rwa [List.length_replicate]⟩
  else .error .fault

/-- `java.util.Arrays.copyOf`: cut, or filled up with the default. -/
def copyOf (zero : α) (array : JavaArray α) (newLength : ℤ) : Except PyError (JavaArray α) :=
  if h : newLength.toNat ≤ 2147483647 then
    .ok ⟨(array.elements ++ List.replicate newLength.toNat zero).take newLength.toNat,
      (List.length_take_le _ _).trans h⟩
  else .error .fault

end JavaArray

/-! ### Ways to Java -/

/-- `JPConversionObject::matches`, of an array object. -/
def JPConversionObject.matchType [DecidableEq Cls] (isAssignableFrom : Cls → Cls → Bool)
    (cls : Cls) (obj : ArrayObject Cls α) : MatchType :=
  if obj.javaClass = cls then .exact
  else if isAssignableFrom obj.javaClass cls then .derived else .none

/-- `JPConversionObject::convert`. -/
def JPConversionObject.convert (obj : ArrayObject Cls α) : JavaArray α :=
  obj.slot

/-- `JPConversionJavaObjectAny::convert`, of a value that is not primitive. -/
def JPConversionJavaObjectAny.convert (obj : ArrayObject Cls α) : JavaArray α :=
  obj.slot

/-- `_JArrayProto.clone`: `Arrays.copyOf(self, len(self))`, whose array parameter takes the
object by `JPConversionObject`. -/
def ArrayObject.clone (zero : α) (obj : ArrayObject Cls α) : Except PyError (JavaArray α) :=
  JavaArray.copyOf zero (JPConversionObject.convert obj) obj.array.getLength

/-- `PyJPArray_init` for the class `arrayClass`, of an array object. -/
def ArrayObject.init [DecidableEq Cls] (comp : ComponentType Py α) (zero : α) (toPy : Py)
    (arrayClass : Cls) (v : ArrayObject Cls α) : Except PyError (ArrayObject Cls α) := do
  if v.javaClass ≠ arrayClass then throw (.typeError "Array class mismatch")
  if v.array.slice then
    let sliceLength := v.array.getLength
    let newArray ← JavaArray.newArray zero sliceLength
    let items ← v.items comp
    let (newArray, result) := (JPArray.ofValue newArray).setRange comp newArray 0 sliceLength 1
      { object := toPy, items := some items, sameArray := false }
    result
    return create arrayClass newArray
  else return create arrayClass v.slot

/-- The ways in which an array object becomes a Java array. -/
inductive Way (Cls : Type) where
  /-- Where a value of class `cls` is expected, by an exact or derived match. -/
  | object (cls : Cls)
  /-- Where `java.lang.Object` is expected. -/
  | objectAny
  | clone
  /-- The constructor of the array's own class. -/
  | constructor

/-- The Java array that the receiver sees; `none` if the class expected does not match. -/
def receive [DecidableEq Cls] (isAssignableFrom : Cls → Cls → Bool) (comp : ComponentType Py α)
    (zero : α) (toPy : Py) (obj : ArrayObject Cls α) :
    Way Cls → Option (Except PyError (JavaArray α))
  | .object cls =>
    if JPConversionObject.matchType isAssignableFrom cls obj = .none then none
    else some (.ok (JPConversionObject.convert obj))
  | .objectAny => some (.ok (JPConversionJavaObjectAny.convert obj))
  | .clone => some (obj.clone zero)
  | .constructor =>
    some ((ArrayObject.init comp zero toPy obj.javaClass obj).map ArrayObject.slot)

/-- The views that survive a way to Java. -/
def Survives (comp : ComponentType Py α) (obj : ArrayObject Cls α) : Way Cls → Prop
  | .object _ | .objectAny =>
    obj.array.length = obj.slot.elements.length ∧
      (obj.array.step = 1 ∨ obj.slot.elements.reverse = obj.slot.elements)
  | .clone => ∀ k : ℕ, k < obj.array.length →
      obj.slot.elements[(obj.array.start + k * obj.array.step).toNat]? = obj.slot.elements[k]?
  | .constructor => obj.array.slice = true → ∀ k : ℕ, k < obj.array.length →
      ∀ x ∈ obj.slot.elements[(obj.array.start + k * obj.array.step).toNat]?,
        comp.convertItem (comp.toPython x) = .ok x

/-! ### Views of the whole length -/

namespace JPArray.Tracks

variable {n : ℕ} {view : JPArray} {base : List ℕ}

theorem getElem_eq (h : view.Tracks n base) {k : ℕ} (hk : k < base.length) :
    (base[k] : ℤ) = view.start + k * view.step :=
  h.cast_getElem (List.getElem?_eq_getElem hk)

theorem getElem_bounds (h : view.Tracks n base) {k : ℕ} (hk : k < base.length) :
    0 ≤ view.start + k * view.step ∧ view.start + k * view.step < n := by
  have hlt := h.lt_of_mem _ (List.getElem_mem hk)
  rw [← h.getElem_eq hk]
  omega

/-- A view as long as the array has no room for another step than one up or down. -/
theorem step_of_full (h : view.Tracks n base) (hfull : base.length = n) (hn : 2 ≤ n) :
    view.step = 1 ∧ view.start = 0 ∨ view.step = -1 ∧ view.start = n - 1 := by
  have hne := h.step_ne_zero
  obtain ⟨hfirst, hfirst'⟩ := h.getElem_bounds (k := 0) (by omega)
  obtain ⟨hlast, hlast'⟩ := h.getElem_bounds (k := n - 1) (by omega)
  rw [Nat.cast_zero, zero_mul, add_zero] at hfirst hfirst'
  rw [Nat.cast_sub (by omega), Nat.cast_one] at hlast hlast'
  have hn' : (2 : ℤ) ≤ n := by omega
  have hup : view.step ≤ 1 := by
    by_contra hbig
    have hmul : ((n : ℤ) - 1) * 2 ≤ (n - 1) * view.step :=
      mul_le_mul_of_nonneg_left (by omega) (by omega)
    omega
  have hdown : -1 ≤ view.step := by
    by_contra hbig
    have hmul : ((n : ℤ) - 1) * view.step ≤ (n - 1) * -2 :=
      mul_le_mul_of_nonneg_left (by omega) (by omega)
    omega
  obtain hstep | hstep : view.step = 1 ∨ view.step = -1 := by omega
  · rw [hstep] at hlast'
    exact .inl ⟨hstep, by omega⟩
  · rw [hstep] at hlast
    exact .inr ⟨hstep, by omega⟩

/-- A view as long as the array stands for all positions, in order or backwards. -/
theorem base_of_full (h : view.Tracks n base) (hfull : base.length = n) :
    base = List.range n ∧ (2 ≤ n → view.step = 1) ∨
      base = (List.range n).reverse ∧ 2 ≤ n ∧ view.step = -1 := by
  obtain hn | hn := lt_or_ge n 2
  · refine .inl ⟨List.ext_getElem (by rw [hfull, List.length_range]) fun k hk hk' ↦ ?_, by omega⟩
    have hlt := h.lt_of_mem _ (List.getElem_mem hk)
    rw [List.getElem_range]
    omega
  · obtain ⟨hstep, hstart⟩ | ⟨hstep, hstart⟩ := h.step_of_full hfull hn
    · refine .inl ⟨List.ext_getElem (by rw [hfull, List.length_range]) fun k hk hk' ↦ ?_,
        fun _ ↦ hstep⟩
      have hp := h.getElem_eq hk
      rw [hstep, hstart] at hp
      rw [List.getElem_range]
      omega
    · refine .inr ⟨List.ext_getElem (by rw [hfull, List.length_reverse, List.length_range])
        fun k hk hk' ↦ ?_, hn, hstep⟩
      have hp := h.getElem_eq hk
      rw [hstep, hstart] at hp
      rw [List.getElem_reverse, List.getElem_range, List.length_range]
      omega

end JPArray.Tracks

/-- What a view shows of the elements of its Java array. -/
structure JPArray.Shows (view : JPArray) (elements items : List α) : Prop where
  length_eq : view.length = items.length
  length_le : items.length ≤ elements.length
  nonneg : ∀ k : ℕ, k < view.length → 0 ≤ view.start + k * view.step
  getElem? : ∀ k : ℕ, k < view.length →
    elements[(view.start + k * view.step).toNat]? = items[k]?
  /-- Of the whole length, it is the array or the array backwards. -/
  full : items.length = elements.length →
    items = elements ∧ (2 ≤ elements.length → view.step = 1) ∨
      items = elements.reverse ∧ 2 ≤ elements.length ∧ view.step = -1

theorem JPArray.Tracks.shows {view : JPArray} {base : List ℕ} {elements items : List α}
    (h : view.Tracks elements.length base)
    (hitems : items.map some = base.map (elements[·]?)) : view.Shows elements items := by
  have hlen : items.length = base.length := by
    rw [← List.length_map (f := some), hitems, List.length_map]
  have hlt {k : ℕ} (hk : k < view.length) : k < base.length := by
    rw [h.length_eq] at hk
    omega
  refine ⟨by rw [h.length_eq, hlen], hlen ▸ h.length_le,
    fun k hk ↦ (h.getElem_bounds (hlt hk)).1, fun k hk ↦ ?_, fun hfull ↦ ?_⟩
  · have hkb := hlt hk
    have hmap := congrArg (·[k]?) hitems
    simp only [List.getElem?_map, List.getElem?_eq_getElem hkb, Option.map_some] at hmap
    rw [← h.getElem_eq hkb, Int.toNat_natCast]
    cases hx : items[k]? with
    | none => rw [hx] at hmap; cases hmap
    | some x => rw [hx] at hmap; exact (Option.some.inj hmap).symm
  · have hinj : Function.Injective (List.map (some : α → Option α)) :=
      List.map_injective_iff.2 (Option.some_injective α)
    obtain ⟨hbase, hstep⟩ | ⟨hbase, hn, hstep⟩ := h.base_of_full (hlen ▸ hfull)
    · refine .inl ⟨hinj ?_, hstep⟩
      rw [hitems, hbase, map_range_getElem?]
    · refine .inr ⟨hinj ?_, hn, hstep⟩
      rw [hitems, hbase, List.map_reverse, map_range_getElem?, List.map_reverse]

/-! ### What arrives -/

theorem reverse_eq_of_length_le_one {l : List α} (h : l.length ≤ 1) : l.reverse = l := by
  match l, h with
  | [], _ => rfl
  | [x], _ => rfl

section Receive

variable {view : JPArray} {slot : JavaArray α} {items : List α}

theorem JPArray.Shows.eq_iff (h : view.Shows slot.elements items) :
    slot.elements = items ↔ view.length = slot.elements.length ∧
      (view.step = 1 ∨ slot.elements.reverse = slot.elements) := by
  constructor
  · intro heq
    refine ⟨by rw [h.length_eq, heq], ?_⟩
    obtain ⟨-, hstep⟩ | ⟨hrev, -, -⟩ := h.full (by rw [heq])
    · obtain hn | hn := lt_or_ge slot.elements.length 2
      · exact .inr (reverse_eq_of_length_le_one (by omega))
      · exact .inl (hstep hn)
    · exact .inr (by rw [← hrev, heq])
  · rintro ⟨hfull, hstep⟩
    rw [h.length_eq] at hfull
    obtain ⟨heq, -⟩ | ⟨hrev, -, hdown⟩ := h.full (by omega)
    · exact heq.symm
    · obtain hup | hpal := hstep
      · omega
      · rw [hrev, hpal]

theorem JPArray.Shows.forall_iff (h : view.Shows slot.elements items) (p : α → Prop) :
    (∀ x ∈ items, p x) ↔ ∀ k : ℕ, k < view.length →
      ∀ x ∈ slot.elements[(view.start + k * view.step).toNat]?, p x := by
  constructor
  · intro hall k hk x hx
    rw [h.getElem? k hk] at hx
    exact hall x (List.mem_of_getElem? hx)
  · intro hall x hx
    obtain ⟨k, hk⟩ := List.mem_iff_getElem?.1 hx
    obtain ⟨hlt, -⟩ := List.getElem?_eq_some_iff.1 hk
    have hkv : (k : ℤ) < view.length := by rw [h.length_eq]; omega
    exact hall k hkv x (by rw [h.getElem? k hkv]; exact hk)

theorem JPArray.Shows.clone_iff (h : view.Shows slot.elements items) (javaClass : Cls)
    (zero : α) :
    (ArrayObject.clone zero ⟨javaClass, slot, view⟩).map JavaArray.elements = .ok items ↔
      ∀ k : ℕ, k < view.length →
        slot.elements[(view.start + k * view.step).toNat]? = slot.elements[k]? := by
  have hlen : view.getLength.toNat = items.length := by
    rw [JPArray.getLength, h.length_eq, Int.toNat_natCast]
  have hclone : (ArrayObject.clone zero ⟨javaClass, slot, view⟩).map JavaArray.elements =
      .ok (slot.elements.take items.length) := by
    rw [ArrayObject.clone, JPConversionObject.convert, JavaArray.copyOf, dif_pos]
    · show Except.ok ((slot.elements ++ _).take view.getLength.toNat) = _
      rw [hlen, List.take_append_of_le_length h.length_le]
    · show view.getLength.toNat ≤ _
      have := slot.length_le
      have := h.length_le
      omega
  rw [hclone, Except.ok.injEq]
  constructor
  · intro htake k hk
    have hki : k < items.length := by have := h.length_eq; omega
    rw [h.getElem? k hk, ← htake, List.getElem?_take_of_lt hki]
  · intro hall
    refine List.ext_getElem? fun k ↦ ?_
    obtain hk | hk := lt_or_ge k items.length
    · have hkv : (k : ℤ) < view.length := by rw [h.length_eq]; omega
      rw [List.getElem?_take_of_lt hk, ← hall k hkv, h.getElem? k hkv]
    · rw [List.getElem?_eq_none hk, List.getElem?_eq_none ((List.length_take_le _ _).trans hk)]

/-- Storing a list of items at all positions leaves that list. -/
theorem Writes.eq_of_range {xs before after : List α} {n : ℕ}
    (h : Writes (List.range n) xs before after) (hn : before.length = n) (hxs : xs.length = n) :
    after = xs := by
  refine List.ext_getElem? fun k ↦ ?_
  obtain hk | hk := lt_or_ge k n
  · exact h.written k k (List.getElem?_range hk)
  · rw [List.getElem?_eq_none (by rw [h.length_eq]; omega), List.getElem?_eq_none (by omega)]

theorem mapM_range_eq_ok {ε γ : Type} {ys : List γ} {f : ℕ → Except ε γ}
    (hf : ∀ k (hk : k < ys.length), f k = .ok ys[k]) :
    (List.range ys.length).mapM f = .ok ys := by
  induction ys generalizing f with
  | nil => rfl
  | cons y ys ih =>
    have htail : (List.range ys.length).mapM (f ∘ Nat.succ) = .ok ys :=
      ih fun k hk ↦ hf (k + 1) (Nat.succ_lt_succ hk)
    rw [List.length_cons, List.range_succ_eq_map, List.mapM_cons, hf 0 (Nat.succ_pos _),
      List.mapM_map, htail]
    rfl

/-- Reading an array object item by item gives the items of the view. -/
theorem ArrayObject.items_eq {comp : ComponentType Py α} {base : List ℕ} (javaClass : Cls)
    (h : view.Addresses comp slot base items) :
    ArrayObject.items comp ⟨javaClass, slot, view⟩ = .ok (items.map comp.toPython) := by
  have hlen : view.getLength.toNat = (items.map comp.toPython).length := by
    rw [h.getLength, Int.toNat_natCast, List.length_map]
  rw [ArrayObject.items, hlen]
  refine mapM_range_eq_ok fun k hk ↦ ?_
  rw [List.length_map] at hk
  have hindex : pyIndex items (k : ℤ) = some items[k] := by
    have hneg : ¬(k : ℤ) < 0 := by omega
    simp only [pyIndex, hneg, if_false, Int.toNat_natCast, List.getElem?_eq_getElem hk]
  rw [h.getItem, hindex, List.getElem_map]

/-- A list of items stored at all positions of an array of that length. -/
theorem ComponentType.setArrayRange_all (comp : ComponentType Py α) {newArray : JavaArray α}
    {vals : List Py} {xs : List α}
    (hconv : vals.Forall₂ (fun val x ↦ comp.convertItem val = .ok x) xs)
    (hlen : newArray.elements.length = vals.length) :
    ∃ array, comp.setArrayRange newArray 0 1 vals = (array, .ok ()) ∧ array.elements = xs := by
  obtain ⟨array, hset, hwrites⟩ := comp.setArrayRange_writes hconv
    (progression_zero_one vals.length).symm List.nodup_range
    fun k hk ↦ hlen ▸ List.mem_range.1 hk
  exact ⟨array, hset, hwrites.eq_of_range hlen hconv.length_eq.symm⟩

/-- The constructor of a slice, as one store into a new array. -/
theorem ArrayObject.init_eq [DecidableEq Cls] {comp : ComponentType Py α} {base : List ℕ}
    (javaClass : Cls) (zero : α) (toPy : Py) (h : view.Addresses comp slot base items)
    (hle : items.length ≤ 2147483647) (hslice : view.slice = true) :
    ∃ newArray : JavaArray α, newArray.elements.length = items.length ∧
      ArrayObject.init comp zero toPy javaClass ⟨javaClass, slot, view⟩ =
        match comp.setArrayRange newArray 0 1 (items.map comp.toPython) with
        | (array, .ok ()) => .ok (.create javaClass array)
        | (_, .error e) => .error e := by
  have hlen : view.getLength.toNat = items.length := by rw [h.getLength, Int.toNat_natCast]
  have hbound : view.getLength.toNat ≤ 2147483647 := by rwa [hlen]
  refine ⟨⟨List.replicate view.getLength.toNat zero, by rwa [List.length_replicate]⟩,
    by rw [List.length_replicate, hlen], ?_⟩
  generalize hnew : (⟨List.replicate view.getLength.toNat zero, _⟩ : JavaArray α) = newArray
  have hnewArray : JavaArray.newArray zero view.getLength = .ok newArray := by
    rw [JavaArray.newArray, dif_pos hbound, hnew]
  have hrange : (JPArray.ofValue newArray).setRange comp newArray 0 view.getLength 1
      { object := toPy, items := some (items.map comp.toPython), sameArray := false } =
        comp.setArrayRange newArray 0 1 (items.map comp.toPython) := by
    rw [JPArray.setRange]
    exact if_neg (by rw [h.getLength, List.length_map, not_not])
  rw [ArrayObject.init, if_neg (not_not.2 rfl)]
  simp only [hslice, if_true, hnewArray, ArrayObject.items_eq javaClass h]
  show ((JPArray.setRange comp _ newArray 0 view.getLength 1 _).2 >>= fun _ ↦
    Except.ok (create javaClass (JPArray.setRange comp _ newArray 0 view.getLength 1 _).1)) = _
  rw [hrange]
  rcases comp.setArrayRange newArray 0 1 (items.map comp.toPython) with ⟨array, e | u⟩ <;> rfl

theorem ArrayObject.init_iff [DecidableEq Cls] {comp : ComponentType Py α} {base : List ℕ}
    (javaClass : Cls) (zero : α) (toPy : Py) (h : view.Addresses comp slot base items)
    (hle : items.length ≤ 2147483647) (hslice : view.slice = true) :
    ((ArrayObject.init comp zero toPy javaClass ⟨javaClass, slot, view⟩).map
        ArrayObject.slot).map JavaArray.elements = .ok items ↔
      ∀ x ∈ items, comp.convertItem (comp.toPython x) = .ok x := by
  obtain ⟨newArray, hlen, hinit⟩ := ArrayObject.init_eq javaClass zero toPy h hle hslice
  have hwrite {xs : List α}
      (hconv : (items.map comp.toPython).Forall₂ (fun val x ↦ comp.convertItem val = .ok x) xs) :=
    comp.setArrayRange_all hconv (by rw [hlen, List.length_map])
  rw [hinit]
  constructor
  · intro hok
    cases hset : comp.setArrayRange newArray 0 1 (items.map comp.toPython) with
    | mk array result =>
      rw [hset] at hok
      cases result with
      | error e => cases hok
      | ok u =>
        obtain ⟨xs, hconv⟩ := ComponentType.setArrayRange_ok hset
        obtain ⟨array', hset', rfl⟩ := hwrite hconv
        obtain rfl : array' = array := congrArg Prod.fst (hset'.symm.trans hset)
        obtain rfl : array'.elements = items := Except.ok.inj hok
        exact List.forall₂_same.1 (List.forall₂_map_left_iff.1 hconv)
  · intro hall
    obtain ⟨array, hset, helements⟩ :=
      hwrite (List.forall₂_map_left_iff.2 (List.forall₂_same.2 hall))
    rw [hset]
    exact congrArg Except.ok helements

end Receive

/-! ### Chains of slices -/

theorem ArrayObject.getSlices_eq (slices : List PySlice) (obj : ArrayObject Cls α) :
    obj.getSlices slices =
      (PyJPArray.getSlices slices obj.array).map fun view ↦ { obj with array := view } := by
  induction slices generalizing obj with
  | nil => rfl
  | cons s slices ih =>
    show (obj.getSlice s >>= getSlices slices) =
      (PyJPArray.getSlice obj.array s >>= PyJPArray.getSlices slices).map _
    rw [getSlice]
    cases PyJPArray.getSlice obj.array s with
    | error e => rfl
    | ok view => exact ih _

theorem PyJPArray.slice_of_getSlice {view view' : JPArray} {s : PySlice}
    (h : PyJPArray.getSlice view s = .ok view') : view'.slice = true := by
  rw [PyJPArray.getSlice] at h
  cases hunpack : s.unpack with
  | error e =>
    rw [hunpack] at h
    cases h
  | ok bounds =>
    obtain ⟨start, stop, step⟩ := bounds
    rw [hunpack] at h
    change (if _ then Except.ok _ else Except.ok _) = _ at h
    split_ifs at h
    · exact congrArg JPArray.slice (Except.ok.inj h).symm
    · exact congrArg JPArray.slice (Except.ok.inj h).symm

/-- A view that is not marked as a slice has not been sliced. -/
theorem PyJPArray.slice_of_getSlices (slices : List PySlice) {view view' : JPArray}
    (h : PyJPArray.getSlices slices view = .ok view') :
    slices = [] ∧ view' = view ∨ view'.slice = true := by
  induction slices generalizing view with
  | nil => exact .inl ⟨rfl, (Except.ok.inj h).symm⟩
  | cons s slices ih =>
    change (PyJPArray.getSlice view s >>= PyJPArray.getSlices slices) = _ at h
    cases hs : PyJPArray.getSlice view s with
    | error e =>
      rw [hs] at h
      cases h
    | ok view₁ =>
      rw [hs] at h
      obtain ⟨-, rfl⟩ | hslice := ih h
      · exact .inr (PyJPArray.slice_of_getSlice hs)
      · exact .inr hslice

/-- What a chain of slices of an array object leaves. -/
theorem ArrayObject.getSlices_ok {javaClass : Cls} {array : JavaArray α}
    {slices : List PySlice} {obj : ArrayObject Cls α} {items : List α}
    (hobj : ArrayObject.getSlices slices (.create javaClass array) = .ok obj)
    (hitems : PySlice.chain slices array.elements = .ok items) :
    ∃ view base, (⟨javaClass, array, view⟩ : ArrayObject Cls α) = obj ∧
      PyJPArray.getSlices slices (JPArray.ofValue array) = .ok view ∧
      view.Tracks array.elements.length base ∧
      items.map some = base.map (array.elements[·]?) := by
  rw [getSlices_eq] at hobj
  change (PyJPArray.getSlices slices (JPArray.ofValue array)).map _ = _ at hobj
  have hagree := JPArray.Tracks.agree_getSlices array.length_le slices (.ofValue array)
  cases hview : PyJPArray.getSlices slices (JPArray.ofValue array) with
  | error e =>
    rw [hview] at hobj
    cases hobj
  | ok view =>
    rw [hview] at hobj hagree
    obtain ⟨base, hbase, htracks⟩ := hagree.exists_of_ok
    have hchain := PySlice.chain_elements slices array.elements
    rw [hitems, hbase] at hchain
    exact ⟨view, base, Except.ok.inj hobj, rfl, htracks, Except.ok.inj hchain⟩

/-- The array `{10, 11, 12, 13}`. -/
def fourInts : JavaArray ℤ :=
  ⟨[10, 11, 12, 13], by decide⟩

/-- Integers that convert to themselves. -/
def intComponent : ComponentType ℤ ℤ where
  isPrimitive := true
  toPython x := x
  unableToConvert := "Unable to convert to Java int"
  findJavaConversion _ := true
  convert := .ok
  readItem := .ok

/-- `[1:3]`. -/
def middle : PySlice :=
  ⟨some 1, some 3, none⟩

/-- `fourInts[1:3]`. -/
def middleInts : ArrayObject Unit ℤ where
  javaClass := ()
  slot := fourInts
  array := (JPArray.ofValue fourInts).ofSlice 1 3 1

theorem length_le_one_of_reverse_eq {l : List α} (hnodup : l.Nodup) (h : l.reverse = l) :
    l.length ≤ 1 := by
  by_contra hlong
  have hfirst : l.reverse[0]? = l[0]? := by rw [h]
  rw [List.getElem?_reverse (by omega), List.getElem?_eq_getElem (by omega),
    List.getElem?_eq_getElem (by omega), Option.some.injEq, hnodup.getElem_inj_iff] at hfirst
  omega

/-- Of an array without repeated elements the conversions hand over the array as it is and
views of at most one element of an array as short; `clone` hands over the front parts. -/
theorem survives_iff_of_nodup (comp : ComponentType Py α) {obj : ArrayObject Cls α}
    {items : List α} (hshows : obj.array.Shows obj.slot.elements items)
    (hnodup : obj.slot.elements.Nodup) :
    (Survives comp obj .objectAny ↔ obj.array.length = obj.slot.elements.length ∧
        (obj.array.step = 1 ∨ obj.array.length ≤ 1)) ∧
      (Survives comp obj .clone ↔ obj.array.length = 0 ∨
        obj.array.start = 0 ∧ (obj.array.step = 1 ∨ obj.array.length = 1)) := by
  have hpos := obj.array.length_nonneg
  constructor
  · refine and_congr_right fun hfull ↦ or_congr_right ⟨fun hrev ↦ ?_, fun hshort ↦ ?_⟩
    · have := length_le_one_of_reverse_eq hnodup hrev
      omega
    · exact reverse_eq_of_length_le_one (by omega)
  · have hsame {k : ℕ} (hk : k < obj.array.length)
        (h : obj.slot.elements[(obj.array.start + k * obj.array.step).toNat]? =
          obj.slot.elements[k]?) : obj.array.start + k * obj.array.step = k := by
      have hkn : k < obj.slot.elements.length := by
        have := hshows.length_eq
        have := hshows.length_le
        omega
      rw [List.getElem?_eq_getElem hkn] at h
      obtain ⟨hlt, hget⟩ := List.getElem?_eq_some_iff.1 h
      have hinj := (hnodup.getElem_inj_iff).1 hget
      have := hshows.nonneg k hk
      omega
    constructor
    · intro hall
      obtain hzero | hpos' := hpos.eq_or_lt
      · exact .inl hzero.symm
      · have hstart := hsame (k := 0) hpos' (hall 0 hpos')
        rw [Nat.cast_zero, zero_mul, add_zero] at hstart
        refine .inr ⟨hstart, ?_⟩
        obtain hone | htwo : obj.array.length = 1 ∨ ((1 : ℕ) : ℤ) < obj.array.length := by omega
        · exact .inr hone
        · have hnext := hsame (k := 1) htwo (hall 1 htwo)
          rw [hstart, Nat.cast_one, one_mul, zero_add] at hnext
          exact .inl hnext
    · rintro (hzero | ⟨hstart, hstep | hone⟩) k hk
      · omega
      · rw [hstart, hstep, mul_one, zero_add, Int.toNat_natCast]
      · obtain rfl : k = 0 := by omega
        rw [hstart, Nat.cast_zero, zero_mul, add_zero, Int.toNat_zero]

end JPype
