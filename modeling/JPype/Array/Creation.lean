import JPype.Array.MachineWidth
import Mathlib.Data.List.TakeWhile

/-!
# Creating arrays

`C[n]` creates a Java array of a class, `C[:]` is the array type, and a tuple does both: integers
for the extents and then full slices for the dimensions that are left open. The extents are read
as `long` and stored as `int`. `array_index_exact_iff` and `array_tuple_exact_iff` say when the
array has the extents that were asked for.
-/

namespace JPype

open Foundation

namespace PyJPClass

/-- An item of the specification of an array. -/
inductive ArrayItem where
  | index (n : ℤ)
  | slice (s : PySlice)
  | other
  deriving DecidableEq, Repr

/-- What a class is subscripted with. -/
inductive ArraySpec where
  | item (item : ArrayItem)
  | tuple (items : List ArrayItem)
  deriving DecidableEq, Repr

/-- An array that the Java virtual machine has created, of elements of a class. -/
structure NewArray (Cls : Type) where
  component : Cls
  extents : List ℕ

/-- What a subscript makes of a class. -/
inductive Created (Cls : Type) where
  | array (a : NewArray Cls)
  | type (cls : Cls)

/-- The Java virtual machine, where it decides whether a class or an array exists. -/
structure JavaVM (Cls : Type) where
  /-- The class of arrays of a number of dimensions, or the exception of `findClassByName`. -/
  arrayClass : Cls → ℕ → Except String Cls
  /-- The exception that an array of these extents ends with, if there is no memory for it or it
  has too many dimensions. -/
  refuses : Cls → List ℕ → Option String

variable {Cls : Type}

/-- An exception of the Java virtual machine. -/
def fromJava {β : Type} (r : Except String β) : Except PyError β :=
  r.mapError .raised

namespace JavaVM

/-- The creation of an array: no extent is negative. -/
def create (vm : JavaVM Cls) (component : Cls) (dims : List ℤ) : Except String (NewArray Cls) :=
  if ∃ d ∈ dims, d < 0 then .error "java.lang.NegativeArraySizeException"
  else
    match vm.refuses component (dims.map Int.toNat) with
    | some e => .error e
    | none => .ok { component := component, extents := dims.map Int.toNat }

/-- `newArrayType`. -/
def newArrayType (vm : JavaVM Cls) (self : Cls) (d : ℕ) : Except PyError Cls :=
  if 255 < d then .error (.valueError "Invalid array dimensions")
  else fromJava (vm.arrayClass self d)

/-- The class of the elements, where `undefined` dimensions are left open. -/
def elementType (vm : JavaVM Cls) (self : Cls) (undefined : ℕ) : Except PyError Cls :=
  if 0 < undefined then vm.newArrayType self undefined else .ok self

end JavaVM

/-- `PyLong_AsLong`, which is `-1` for an integer that does not fit. -/
def asLong (n : ℤ) : ℤ :=
  if PySlice.ssizeMin ≤ n ∧ n ≤ PySlice.ssizeMax then n else -1

/-- `PySlice_CheckFull`. -/
def checkFull (s : PySlice) : Bool :=
  match s.unpack with
  | .error _ => false
  | .ok (start, stop, step) => start = 0 ∧ step = 1 ∧ stop = PySlice.ssizeMax

/-- The extents that a tuple begins with. -/
def sizes : List ArrayItem → List ℤ
  | .index n :: items => if 0 < asLong n then asLong n :: sizes items else []
  | _ => []

/-- The number of full slices that a tuple begins with. -/
def fullSlices : List ArrayItem → ℕ
  | .slice s :: items => if checkFull s then fullSlices items + 1 else 0
  | _ => 0

/-- `NewIntArray`, and the loop that stores the extents in it. -/
def newIntArray (sz : List ℤ) (c : Conversion) : Except (Stop PyError) (List ℤ) := do
  let defined ← c.narrow 32 sz.length
  if defined < 0 then raising (.error (.raised "java.lang.NegativeArraySizeException"))
  else if defined < sz.length then raising (.error .fault)
  else return sz ++ List.replicate (defined.toNat - sz.length) 0

/-- An array with the extents that the Java virtual machine is given. -/
def newArray (vm : JavaVM Cls) (component : Cls) (dims : List ℤ) :
    Except PyError (Created Cls) :=
  (fromJava (vm.create component dims)).map .array

/-- `PyJPClass_array` of an integer. -/
def arrayIndex (vm : JavaVM Cls) (self : Cls) (n : ℤ) (c : Conversion) :
    Except (Stop PyError) (Created Cls) := do
  let _ ← raising (vm.newArrayType self 1)
  let length ← c.narrow 32 (asLong n)
  raising (newArray vm self [length])

/-- `PyJPClass_array` of a tuple. -/
def arrayTuple (vm : JavaVM Cls) (self : Cls) (items : List ArrayItem) (c : Conversion) :
    Except (Stop PyError) (Created Cls) := do
  let sz ← (sizes items).mapM (c.narrow 32)
  let undefined := fullSlices (items.drop sz.length)
  if sz.length + undefined ≠ items.length then
    raising (.error (.typeError "Invalid array definition"))
  else
    let cls ← raising (vm.elementType self undefined)
    if sz.length = 0 then return .type cls
    else
      let u ← newIntArray sz c
      raising (newArray vm cls u)

/-- `PyJPClass_array`, of a class that is a Java class. -/
def array (vm : JavaVM Cls) (self : Cls) :
    ArraySpec → Conversion → Except (Stop PyError) (Created Cls)
  | .item (.index n), c => arrayIndex vm self n c
  | .item (.slice s), _ =>
    if checkFull s then raising ((vm.newArrayType self 1).map .type)
    else raising (.error (.typeError "Bad array specification on slice"))
  | .item .other, _ => raising (.error (.typeError "Bad array specification"))
  | .tuple items, c => arrayTuple vm self items c

/-- The outcome of asking for an array: an exception, or an array of these extents, or the array
type if there are none. -/
def Requested (vm : JavaVM Cls) (self : Cls) (ns : List ℤ) (undefined : ℕ)
    (r : Except PyError (Created Cls)) : Prop :=
  (∃ e, r = .error e ∧ e ≠ .fault) ∨
    (∃ a, r = .ok (.array a) ∧ a.extents.map (↑) = ns ∧
      vm.elementType self undefined = .ok a.component) ∨
    ns = [] ∧ ∃ cls, r = .ok (.type cls) ∧ vm.elementType self undefined = .ok cls

/-- The extent fits, if the array type exists and the extent is read. -/
def ExtentFits (vm : JavaVM Cls) (self : Cls) (n : ℤ) : Prop :=
  (∃ cls, vm.newArrayType self 1 = .ok cls) → PySlice.ssizeMin ≤ n ∧ n ≤ PySlice.ssizeMax →
    Fits 32 n

/-- The extents that are read fit, and so does their number if there is an array to create. -/
def ExtentsFit (vm : JavaVM Cls) (self : Cls) (ns : List ℤ) (undefined : ℕ) : Prop :=
  (∀ n ∈ ns.takeWhile (· ≤ PySlice.ssizeMax), Fits 32 n) ∧
    ((∀ n ∈ ns, n ≤ PySlice.ssizeMax) →
      (∃ cls, vm.elementType self undefined = .ok cls) → Fits 32 ns.length)

section Extents

variable {vm : JavaVM Cls} {self : Cls} {spec : Except PyError (Created Cls) → Prop}

theorem fromJava_error {β : Type} {r : Except String β} {e : PyError}
    (h : fromJava r = .error e) : e ≠ .fault := by
  cases r with
  | error m =>
    rintro rfl
    cases Except.error.inj h
  | ok b => cases h

theorem newArrayType_error {d : ℕ} {e : PyError} (h : vm.newArrayType self d = .error e) :
    e ≠ .fault := by
  rw [JavaVM.newArrayType] at h
  split_ifs at h
  · rintro rfl
    cases Except.error.inj h
  · exact fromJava_error h

theorem elementType_error {d : ℕ} {e : PyError} (h : vm.elementType self d = .error e) :
    e ≠ .fault := by
  rw [JavaVM.elementType] at h
  split_ifs at h
  exact newArrayType_error h

/-- An array that is created has the extents that the Java virtual machine is given. -/
theorem create_ok {component : Cls} {dims : List ℤ} {a : NewArray Cls}
    (h : vm.create component dims = .ok a) :
    a.component = component ∧ a.extents.map (↑) = dims := by
  rw [JavaVM.create] at h
  split_ifs at h with hneg
  cases hrefuses : vm.refuses component (dims.map Int.toNat) with
  | some e =>
    rw [hrefuses] at h
    cases h
  | none =>
    rw [hrefuses] at h
    obtain rfl := Except.ok.inj h
    refine ⟨rfl, ?_⟩
    rw [List.map_map]
    refine (List.map_congr_left fun d hd ↦ ?_).trans (List.map_id dims)
    have hd0 : 0 ≤ d := not_lt.1 fun hlt ↦ hneg ⟨d, hd, hlt⟩
    exact Int.toNat_of_nonneg hd0

/-- The array that the Java virtual machine is asked for is the one requested. -/
theorem requested_newArray {cls : Cls} {ns : List ℤ} {undefined : ℕ}
    (hcls : vm.elementType self undefined = .ok cls) :
    Requested vm self ns undefined (newArray vm cls ns) := by
  rw [newArray]
  cases hcreate : vm.create cls ns with
  | error m => exact .inl ⟨.raised m, rfl, fun h ↦ PyError.noConfusion h⟩
  | ok a =>
    obtain ⟨hcomponent, hextents⟩ := create_ok hcreate
    refine .inr (.inl ⟨a, rfl, hextents, ?_⟩)
    rw [hcls, hcomponent]

/-- **`C[n]`** is exact if and only if the extent fits. -/
theorem arrayIndex_exact_iff (vm : JavaVM Cls) (self : Cls) (n : ℤ) :
    Exact (arrayIndex vm self n) (Requested vm self [n] 0) ↔ ExtentFits vm self n := by
  rw [ExtentFits]
  unfold arrayIndex
  cases htype : vm.newArrayType self 1 with
  | error e =>
    refine iff_of_true ?_ fun h ↦ ?_
    · exact (exact_raising_iff (r := .error e)).2 (.inl ⟨e, rfl, newArrayType_error htype⟩)
    · obtain ⟨cls, hcls⟩ := h
      cases hcls
  | ok cls =>
    show Exact (fun c ↦ c.narrow 32 (asLong n) >>= fun length ↦
      raising (newArray vm self [length])) _ ↔ _
    rw [exact_narrow_bind_iff (f := fun _ length ↦ raising (newArray vm self [length]))
      (by decide), exact_raising_iff]
    by_cases hlong : PySlice.ssizeMin ≤ n ∧ n ≤ PySlice.ssizeMax
    · rw [asLong, if_pos hlong]
      exact ⟨fun h _ _ ↦ h.1, fun h ↦ ⟨h ⟨cls, rfl⟩ hlong, requested_newArray rfl⟩⟩
    · rw [asLong, if_neg hlong]
      refine iff_of_true ⟨by decide, ?_⟩ fun _ h ↦ absurd h hlong
      have hneg : vm.create self [-1] = .error "java.lang.NegativeArraySizeException" :=
        if_pos ⟨-1, List.mem_singleton_self _, by decide⟩
      rw [newArray, hneg]
      exact .inl ⟨.raised _, rfl, fun h ↦ PyError.noConfusion h⟩

/-- The extents that a tuple of positive integers and full slices begins with. -/
theorem sizes_eq {ns : List ℤ} (hns : ∀ n ∈ ns, 0 < n) (ss : List PySlice) :
    sizes (ns.map .index ++ ss.map .slice) = ns.takeWhile (· ≤ PySlice.ssizeMax) := by
  induction ns with
  | nil => cases ss <;> rfl
  | cons n ns ih =>
    obtain ⟨hn, hns⟩ := List.forall_mem_cons.1 hns
    rw [List.map_cons, List.cons_append, sizes, ih hns]
    by_cases hmax : n ≤ PySlice.ssizeMax
    · have hmin : PySlice.ssizeMin ≤ n := (by decide : PySlice.ssizeMin ≤ 0).trans hn.le
      have hlong : asLong n = n := if_pos ⟨hmin, hmax⟩
      rw [hlong, if_pos hn, List.takeWhile_cons, if_pos (decide_eq_true hmax)]
    · have hlong : asLong n = -1 := if_neg fun h ↦ hmax h.2
      rw [hlong, if_neg (by decide), List.takeWhile_cons,
        if_neg (mt of_decide_eq_true hmax)]

theorem fullSlices_map {ss : List PySlice} (hss : ∀ s ∈ ss, checkFull s = true) :
    fullSlices (ss.map .slice) = ss.length := by
  induction ss with
  | nil => rfl
  | cons s ss ih =>
    obtain ⟨hs, hss⟩ := List.forall_mem_cons.1 hss
    rw [List.map_cons, fullSlices, if_pos hs, ih hss, List.length_cons]

/-- After an extent that is not read no full slice follows. -/
theorem fullSlices_drop {ns : List ℤ} (hmax : ¬∀ n ∈ ns, n ≤ PySlice.ssizeMax)
    (ss : List PySlice) :
    fullSlices ((ns.map ArrayItem.index ++ ss.map ArrayItem.slice).drop
      (ns.takeWhile (· ≤ PySlice.ssizeMax)).length) = 0 := by
  induction ns with
  | nil => exact absurd (fun n hn ↦ absurd hn List.not_mem_nil) hmax
  | cons n ns ih =>
    by_cases hn : n ≤ PySlice.ssizeMax
    · rw [List.takeWhile_cons, if_pos (decide_eq_true hn)]
      exact ih fun h ↦ hmax (List.forall_mem_cons.2 ⟨hn, h⟩)
    · rw [List.takeWhile_cons, if_neg (mt of_decide_eq_true hn)]
      rfl

theorem exact_newIntArray_bind_iff {ns : List ℤ}
    {f : List ℤ → Except (Stop PyError) (Created Cls)} :
    Exact (fun c ↦ newIntArray ns c >>= f) spec ↔
      Fits 32 ns.length ∧ Exact (fun _ ↦ f ns) spec := by
  have hstored (c : Conversion) : newIntArray ns c >>= f = c.narrow 32 ns.length >>= fun d ↦
      (if d < 0 then raising (.error (.raised "java.lang.NegativeArraySizeException"))
        else if d < ns.length then raising (.error .fault)
        else return ns ++ List.replicate (d.toNat - ns.length) 0) >>= f := by
    rw [newIntArray, bind_assoc]
  rw [funext hstored, exact_narrow_bind_iff (f := fun _ d ↦
    (if d < 0 then raising (.error (.raised "java.lang.NegativeArraySizeException"))
      else if d < ns.length then raising (.error .fault)
      else return ns ++ List.replicate (d.toNat - ns.length) 0) >>= f) (by decide)]
  rw [if_neg (by omega), if_neg (by omega), Int.toNat_natCast, Nat.sub_self, List.replicate_zero,
    List.append_nil]
  exact Iff.rfl

/-- **`C[n₁, …, :, …]`**, of positive integers and full slices, is exact if and only if the
extents fit. -/
theorem arrayTuple_exact_iff (vm : JavaVM Cls) (self : Cls) {ns : List ℤ}
    (hns : ∀ n ∈ ns, 0 < n) {ss : List PySlice} (hss : ∀ s ∈ ss, checkFull s = true) :
    Exact (arrayTuple vm self (ns.map .index ++ ss.map .slice))
        (Requested vm self ns ss.length) ↔ ExtentsFit vm self ns ss.length := by
  unfold arrayTuple
  rw [exact_mapM_narrow_bind_iff (by decide), sizes_eq hns, ExtentsFit]
  refine and_congr_right fun _ ↦ ?_
  by_cases hmax : ∀ n ∈ ns, n ≤ PySlice.ssizeMax
  · have htake : ns.takeWhile (· ≤ PySlice.ssizeMax) = ns :=
      List.takeWhile_eq_self_iff.2 fun n hn ↦ decide_eq_true (hmax n hn)
    have hdrop : (ns.map ArrayItem.index ++ ss.map ArrayItem.slice).drop ns.length =
        ss.map ArrayItem.slice :=
      List.drop_left' (List.length_map _)
    have hlength : ns.length + ss.length =
        (ns.map ArrayItem.index ++ ss.map ArrayItem.slice).length := by
      rw [List.length_append, List.length_map, List.length_map]
    simp only [htake, hdrop, fullSlices_map hss, if_neg (not_not.2 hlength)]
    cases htype : vm.elementType self ss.length with
    | error e =>
      refine iff_of_true ?_ fun _ h ↦ ?_
      · exact (exact_raising_iff (r := .error e)).2 (.inl ⟨e, rfl, elementType_error htype⟩)
      · obtain ⟨cls, hcls⟩ := h
        cases hcls
    | ok cls =>
      show Exact (fun c ↦ if ns.length = 0 then pure (.type cls)
        else newIntArray ns c >>= fun u ↦ raising (newArray vm cls u)) _ ↔ _
      by_cases hnil : ns = []
      · subst hnil
        refine iff_of_true (exact_pure_iff.2 (.inr (.inr ⟨rfl, cls, rfl, htype⟩))) fun _ _ ↦ ?_
        decide
      · simp only [if_neg (mt List.length_eq_zero_iff.1 hnil)]
        rw [exact_newIntArray_bind_iff (f := fun u ↦ raising (newArray vm cls u)),
          exact_raising_iff]
        exact ⟨fun h _ _ ↦ h.1, fun h ↦ ⟨h hmax ⟨cls, rfl⟩, requested_newArray htype⟩⟩
  · have hshort : (ns.takeWhile (· ≤ PySlice.ssizeMax)).length ≠ ns.length := by
      intro h
      have htake := (List.takeWhile_prefix (· ≤ PySlice.ssizeMax)).eq_of_length h
      exact hmax fun n hn ↦ of_decide_eq_true (List.takeWhile_eq_self_iff.1 htake n hn)
    have hle := (List.takeWhile_prefix (l := ns) (· ≤ PySlice.ssizeMax)).length_le
    have hlength : (ns.takeWhile (· ≤ PySlice.ssizeMax)).length + 0 ≠
        (ns.map ArrayItem.index ++ ss.map ArrayItem.slice).length := by
      rw [List.length_append, List.length_map, List.length_map]
      omega
    simp only [fullSlices_drop hmax, if_pos hlength, exact_raising_iff]
    refine iff_of_true (.inl ⟨_, rfl, fun h ↦ PyError.noConfusion h⟩) fun h ↦ absurd h hmax

end Extents

end PyJPClass

/-! ### Arrays at machine width -/

/-- **Array arithmetic is exact where its arguments fit**, and nowhere else. `view` is any view
that slices which fit have made of a Java array; its items are the elements at the positions
`base`, which the same slices select from a list. -/
theorem array_arithmetic_exact_iff {Py α Cls : Type} (comp : ComponentType Py α)
    (vm : PyJPClass.JavaVM Cls) (self : Cls) {array : JavaArray α} {view : JPArray}
    {base : List ℕ} (h : Jsize.Reached array view base) :
    (∀ i, Exact (Jsize.getIndex comp view array i) (Jsize.ReadsItem comp array base i) ↔
        Jsize.IndexFits i) ∧
      (∀ i value, Exact (Jsize.assignIndex comp view array i value)
          (Jsize.WritesItem comp array base i value) ↔
        (value.sameArray = false → Jsize.IndexFits i)) ∧
      (∀ s, s.step ≠ some 0 → (Exact (Jsize.getSlice view s)
          (Jsize.ViewsItems array.elements.length (s.select base)) ↔ Jsize.SliceFits view s)) ∧
      (∀ s value vals xs, s.step ≠ some 0 → value.sameArray = false → value.items = some vals →
        vals.Forall₂ (fun val x ↦ comp.convertItem val = .ok x) xs →
        vals.length = (s.select base).length →
        (Exact (Jsize.assignSlice comp view array s value)
          (Jsize.WritesRange (s.select base) xs array) ↔ Jsize.RangeFits view s)) ∧
      (∀ n, Exact (PyJPClass.array vm self (.item (.index n)))
          (PyJPClass.Requested vm self [n] 0) ↔ PyJPClass.ExtentFits vm self n) ∧
      ∀ (ns : List ℤ) (ss : List PySlice), (∀ n ∈ ns, 0 < n) →
        (∀ s ∈ ss, PyJPClass.checkFull s = true) →
        (Exact (PyJPClass.array vm self (.tuple (ns.map .index ++ ss.map .slice)))
          (PyJPClass.Requested vm self ns ss.length) ↔
            PyJPClass.ExtentsFit vm self ns ss.length) := by
  have hheld := h.held
  refine ⟨Jsize.getIndex_exact_iff comp hheld.tracks,
    Jsize.assignIndex_exact_iff comp hheld.tracks, fun s hs ↦ ?_,
    fun s value vals xs hs hother hitems hconv hlen ↦ ?_, fun n ↦ ?_, fun ns ss hns hss ↦ ?_⟩
  · exact Jsize.getSlice_exact_iff hheld array.length_le hs
  · exact Jsize.assignSlice_exact_iff comp hheld.tracks hs hother hitems hconv hlen
  · exact PyJPClass.arrayIndex_exact_iff vm self n
  · exact PyJPClass.arrayTuple_exact_iff vm self hns hss

/-- Integers that convert to themselves. -/
def plainInts : ComponentType ℤ ℤ where
  isPrimitive := true
  toPython x := x
  unableToConvert := "Unable to convert to Java int"
  findJavaConversion _ := true
  convert := .ok
  readItem := .ok

/-- The array `{7, 8, 9}`. -/
def threeInts : JavaArray ℤ :=
  ⟨[7, 8, 9], by decide⟩

/-- `[::2]`. -/
def everyOther : PySlice :=
  ⟨none, none, some 2⟩

/-- A Java virtual machine with memory for every array. -/
def amply : PyJPClass.JavaVM Unit where
  arrayClass _ _ := .ok ()
  refuses _ _ := none

/-- `{7, 8, 9}[::2][1]` is the element at position 2. -/
theorem array_arithmetic_exact_second :
    Exact (Jsize.getIndex plainInts (Jsize.viewOf 0 2 2) threeInts 1)
      (Jsize.ReadsItem plainInts threeInts [0, 2] 1) :=
  ((array_arithmetic_exact_iff plainInts amply ()
    (.slice .whole (s := everyOther) (by decide) (by decide) rfl)).1 1).2 (by decide)

/-- `a[2**32]` is `a[0]`, `a[::2**32]` divides by zero, and `C[2**32 + 3]` has three elements. -/
theorem array_arithmetic_not_exact :
    Jsize.getIndex plainInts (.ofValue threeInts) threeInts 4294967296 .wrapping = .ok 7 ∧
      Jsize.getSlice (.ofValue threeInts) ⟨none, none, some 4294967296⟩ .wrapping =
        .error (.inexact .divisionByZero) ∧
      PyJPClass.array amply () (.item (.index 4294967299)) .wrapping =
        .ok (.array ⟨(), [3]⟩) ∧
      ¬Exact (Jsize.getIndex plainInts (.ofValue threeInts) threeInts 4294967296)
        (Jsize.ReadsItem plainInts threeInts [0, 1, 2] 4294967296) := by
  refine ⟨rfl, rfl, rfl, ?_⟩
  rintro ⟨r, hr, hrun⟩
  obtain ⟨message, rfl⟩ : ∃ message, r = .error (.indexError message) := hr
  cases hrun .wrapping

end JPype
