import JPype.Array.BufferIntake
import JPype.Array.View
import JPype.Wrapper.Comparison

/-!
# Assignment to a range of an array

What is assigned to a slice goes to `setArrayRange`, what is assigned to an index goes to
`setArrayItem`, and the two convert their items differently. Arrays of objects have one rule.
Arrays of `int` and of `boolean` take a range from the buffer of the assigned object where it has
one, with the conversions of C, and otherwise from its items: by `__index__` or by their truth,
whatever `findJavaConversion` says of them.

The range of an `int` array has a slip of its own: the reference that fetches an item is given up
before the item is read, so that an item which nothing else holds is gone by then.

`slice_assignment` says what of the agreement is left: items that can be assigned one by one can be
assigned as a range, with the same result, as long as a buffer holds what its object has as items,
and items that an `int` array takes one by one are held by their sequence.
-/

namespace JPype

open Foundation

/-! ### Items -/

/-- The value is one of its type. -/
def JContent.InRange : JContent → Prop
  | .long .boolean n => 0 ≤ n ∧ n ≤ 1
  | .long .byte n => -128 ≤ n ∧ n ≤ 127
  | .long .short n => -32768 ≤ n ∧ n ≤ 32767
  | .long .int n => -2147483648 ≤ n ∧ n ≤ 2147483647
  | .long .long n => -9223372036854775808 ≤ n ∧ n ≤ 9223372036854775807
  | .float _ _ => True
  | .char code => code ≤ 65535

/-- A Python object that is assigned to an element. `wrapped` is a Java object that is not a
box, and `python` any object without a Java class; both bring what their `__index__` and their
truth test give. -/
inductive PyItem where
  | none
  | bool (value : Bool)
  | java (content : JContent) (inRange : content.InRange) (boxed : Bool)
  | nullBoxed (type : BoxedType)
  | wrapped (typeName : String) (index : Option (Except PyError ℤ)) (truth : Except PyError Bool)
  | python (typeName : String) (numpyBool : Bool) (index : Option (Except PyError ℤ))
      (truth : Except PyError Bool)

/-- The name of a primitive type and of its boxed class. -/
def BoxedType.typeName (boxed : Bool) : BoxedType → String
  | .long .boolean => if boxed then "java.lang.Boolean" else "JBoolean"
  | .long .byte => if boxed then "java.lang.Byte" else "JByte"
  | .long .short => if boxed then "java.lang.Short" else "JShort"
  | .long .int => if boxed then "java.lang.Integer" else "JInt"
  | .long .long => if boxed then "java.lang.Long" else "JLong"
  | .float .float => if boxed then "java.lang.Float" else "JFloat"
  | .float .double => if boxed then "java.lang.Double" else "JDouble"
  | .char => if boxed then "java.lang.Character" else "JChar"

namespace PyItem

/-- `Py_TYPE(item)->tp_name`. -/
def typeName : PyItem → String
  | none => "NoneType"
  | bool _ => "bool"
  | java content _ boxed => content.type.typeName boxed
  | nullBoxed type => type.typeName true
  | wrapped name _ _ => name
  | python name _ _ _ => name

/-- `__index__`, if the item passes `PyIndex_Check`. -/
def index : PyItem → Option (Except PyError ℤ)
  | none => .none
  | bool value => some (.ok value.toInt)
  | java (.long _ n) _ _ => some (.ok n)
  | java (.float _ _) _ _ => .none
  | java (.char code) _ _ => some (.ok code)
  | nullBoxed (.long _) => some (.ok 0)
  | nullBoxed (.float _) => .none
  | nullBoxed .char => some (.error (.typeError "jchar cast of null pointer"))
  | wrapped _ index _ => index
  | python _ _ index _ => index

/-- `PyObject_IsTrue`. -/
def truth : PyItem → Except PyError Bool
  | none => .ok false
  | bool value => .ok value
  | java (.long _ n) _ _ => .ok (n ≠ 0)
  | java (.float _ f) _ _ => .ok (f ≠ .finite 0)
  | java (.char code) _ _ => .ok (code ≠ 0)
  | nullBoxed _ => .ok false
  | wrapped _ _ truth => truth
  | python _ _ _ truth => truth

/-- `PyBool_Check`, or an instance of the bool type of numpy. -/
def isBool : PyItem → Bool
  | bool _ => true
  | python _ numpyBool _ _ => numpyBool
  | _ => false

/-- `PyLong_AsLongLong`, of an item that passes `PyIndex_Check`. -/
def asLongLong (index : Except PyError ℤ) : Except PyError ℤ := do
  let n ← index
  if -9223372036854775808 ≤ n ∧ n ≤ 9223372036854775807 then .ok n
  else .error (.overflowError "int too big to convert")

end PyItem

/-! ### Component types -/

/-- `JPIntType::assertRange`, and the cast to `jint` after it. -/
def JPIntType.assertRange (l : ℤ) : Except PyError ℤ :=
  if l < -2147483648 ∨ 2147483647 < l then
    .error (.overflowError "Cannot convert value to Java int")
  else .ok l

/-- `JPIntType`. -/
def JPIntType : ComponentType PyItem ℤ where
  isPrimitive := true
  -- A `jint` is in range.
  toPython n :=
    if h : -2147483648 ≤ n ∧ n ≤ 2147483647 then .java (.long .int n) h false else .none
  unableToConvert := "Unable to convert to Java int"
  findJavaConversion
    | .none => false
    -- What has a Java class is an int, is unboxed or widened to one, or does not match.
    | .java content _ boxed =>
      match content, boxed with
      | .long .int _, _ => true
      | .char _, false | .long .short _, false | .long .byte _, false => true
      | _, _ => false
    | .nullBoxed type => type = .long .int
    | .wrapped _ _ _ => false
    | item => item.index.isSome
  convert
    | .java (.long _ n) _ _ => .ok n
    | .java (.char code) _ _ => .ok code
    -- `intValue` is looked up in the class of a null.
    | .nullBoxed _ => .error .fault
    | item =>
      match item.index with
      | none => .error .fault
      | some index => PyItem.asLongLong index >>= JPIntType.assertRange
  readItem item :=
    match item.index with
    | none =>
      .error (.typeError ("Unable to implicitly convert '" ++ item.typeName ++ "' to int"))
    | some index => PyItem.asLongLong index >>= JPIntType.assertRange

/-- `JPBooleanType`. -/
def JPBooleanType : ComponentType PyItem Bool where
  isPrimitive := true
  toPython value := .bool value
  unableToConvert := "Unable to convert to Java boolean"
  findJavaConversion
    | .none => false
    | .java content _ _ => content.type = .long .boolean
    | .nullBoxed type => type = .long .boolean
    | .wrapped _ _ _ => false
    | item => item.isBool || item.index.isSome
  convert
    | .nullBoxed _ => .error (.raised "java.lang.NullPointerException")
    | item => item.truth
  readItem item := item.truth

/-- A `JPClass` that is not primitive, with its conversions. After `match.convert` a reference is
stored by `SetObjectArrayElement`, which raises an exception if it does not go into the array;
that is part of `convert` here. -/
def JPClass {Obj : Type} (toPython : Option Obj → PyItem) (findJavaConversion : PyItem → Bool)
    (convert : PyItem → Except PyError (Option Obj)) : ComponentType PyItem (Option Obj) where
  isPrimitive := false
  toPython := toPython
  unableToConvert := "Unable to convert"
  findJavaConversion := findJavaConversion
  convert := convert
  readItem := convert

/-- A number in the memory of a buffer. -/
inductive CNumber where
  | integer (value : ℤ)
  | float (value : PyFloat)
  deriving DecidableEq, Repr

/-- The machine: its byte order, its memory, which holds pointers and numbers, and what the cast of
a float that does not fit into a `jint` gives. -/
structure Machine where
  little : Bool
  deref : ℤ → ℤ
  load : ItemType → Bool → ℤ → CNumber
  castOverflow : PyFloat → ℤ

namespace Machine

/-- The number that a converter reads at an address. -/
def read (machine : Machine) (conv : Converter) (address : ℤ) : CNumber :=
  machine.load conv.item conv.reverse address

/-- `Convert<T>::toI`. -/
def toI (machine : Machine) : CNumber → ℤ
  | .integer n => n.bmod 4294967296
  | .float f =>
    match f with
    | .finite q =>
      let n := q.num.tdiv q.den
      if -2147483648 ≤ n ∧ n ≤ 2147483647 then n else machine.castOverflow f
    | _ => machine.castOverflow f

/-- `Convert<T>::toZ`. -/
def toZ : CNumber → Bool
  | .integer n => n ≠ 0
  | .float f => f ≠ .finite 0

end Machine

/-! ### The two ways to assign -/

/-- An item of a sequence. A list holds its items, whereas those of a `range` are made when they are
fetched. -/
structure SequenceItem where
  item : PyItem
  /-- There is a reference to the item besides the one that fetching it returns. -/
  held : Bool

/-- A sequence that is assigned, with what `PySequence_GetItem` fetches from it, and the buffer that
is got from it with `PyBUF_FULL_RO`, if it exports one. -/
structure PySequence where
  fetched : List SequenceItem
  buffer : Option JPPyBuffer

/-- The items of the sequence. -/
def PySequence.items (sequence : PySequence) : List PyItem :=
  sequence.fetched.map SequenceItem.item

/-- The component type of a range whose items are fetched. If `drops`, the fetched reference is
given up before the item is read. -/
def ComponentType.fetching {α : Type} (comp : ComponentType PyItem α) (drops : Bool) :
    ComponentType SequenceItem α where
  isPrimitive := comp.isPrimitive
  toPython x := ⟨comp.toPython x, true⟩
  unableToConvert := comp.unableToConvert
  findJavaConversion val := comp.findJavaConversion val.item
  convert val := comp.convert val.item
  readItem val := if drops && !val.held then .error .fault else comp.readItem val.item

variable {Py α : Type}

/-- The buffer path of `setArrayRange`. -/
def setArrayBuffer (machine : Machine) (target : PrimitiveType) (cast : CNumber → α)
    (array : JavaArray α) (start step : ℤ) (length : ℕ) (view : JPPyBuffer) :
    JavaArray α × Except PyError Unit :=
  if view.ndim ≠ 1 then (array, .error (.typeError "buffer dims incorrect"))
  else match view.shape.bind List.head?, view.strides.bind List.head? with
    | some vshape, some vstep =>
      if vshape ≠ length then (array, .error (.valueError "mismatched size"))
      else
        let memory := match view.suboffsets.bind List.head? with
          | some suboffset => if 0 ≤ suboffset then machine.deref view.buf + suboffset else view.buf
          | none => view.buf
        let conv := getConverter machine.little view.format view.itemsize target
        let convert (address : ℤ) : Except PyError α :=
          match conv with
          | none => .error .fault
          | some conv => .ok (cast (machine.read conv address))
        match ComponentType.storeItems convert step array start
            (progression memory vstep length) with
        | (array', .ok ()) => (array', .ok ())
        | (_, .error e) => (array, .error e)
    | _, _ => (array, .error .fault)

/-- `setArrayRange` of a primitive type, of as many items as there are. -/
def ComponentType.setPrimitiveRange (comp : ComponentType PyItem α) (drops : Bool)
    (machine : Machine) (target : PrimitiveType) (cast : CNumber → α) (array : JavaArray α)
    (start step : ℤ) (sequence : PySequence) : JavaArray α × Except PyError Unit :=
  match sequence.buffer with
  | some view => setArrayBuffer machine target cast array start step sequence.items.length view
  | none => (comp.fetching drops).setArrayRange array start step sequence.fetched

/-- `JPIntType::setArrayRange`, where `item` points to what a temporary has held. -/
def JPIntType.setArrayRange (machine : Machine) (array : JavaArray ℤ) (start step : ℤ)
    (sequence : PySequence) : JavaArray ℤ × Except PyError Unit :=
  JPIntType.setPrimitiveRange true machine .int machine.toI array start step sequence

/-- `JPBooleanType::setArrayRange`, which reads an item while the temporary lives. -/
def JPBooleanType.setArrayRange (machine : Machine) (array : JavaArray Bool) (start step : ℤ)
    (sequence : PySequence) : JavaArray Bool × Except PyError Unit :=
  JPBooleanType.setPrimitiveRange false machine .boolean Machine.toZ array start step sequence

/-- The items of a range, assigned with `setArrayItem` one after the other. -/
def ComponentType.setArrayItems (comp : ComponentType Py α) (step : ℤ) :
    JavaArray α → ℤ → List Py → JavaArray α × Except PyError Unit
  | array, _, [] => (array, .ok ())
  | array, index, val :: vals =>
    match comp.setArrayItem array index val with
    | .error e => (array, .error e)
    | .ok array => setArrayItems comp step array (index + step) vals

/-- A range of `count` positions in an array, as `setRange` makes it from a slice of a view. -/
structure IndexRange (size count : ℕ) where
  start : ℤ
  step : ℤ
  positions : List ℕ
  positions_eq : positions.map (↑) = progression start step count
  nodup : positions.Nodup
  lt_size : ∀ k ∈ positions, k < size

/-- The range that `setRange` makes from a slice of a view. -/
def JPArray.Tracks.indexRange {n : ℕ} {view : JPArray} {base : List ℕ} (h : view.Tracks n base)
    (hn : n ≤ 2147483647) {s : PySlice} (hs : s.step ≠ some 0) :
    IndexRange n (s.select base).length where
  start := view.start + view.step * s.startOf view.length
  step := view.step * s.unpackStep
  positions := s.select base
  positions_eq := by
    rw [h.select_eq (h.length_le_ssizeMax hn) hs, PySlice.length_select hs, h.length_eq,
      mul_comm s.unpackStep]
  nodup := by
    obtain ⟨view', -, hview⟩ := h.getSlice hn hs
    exact hview.nodup
  lt_size k hk := h.lt_of_mem k (s.select_subset base hk)

/-! ### What is claimed of them -/

/-- The assignment raises no exception. -/
def Succeeds (result : JavaArray α × Except PyError Unit) : Prop :=
  result.2 = .ok ()

/-- Two ways to assign succeed together, and leave the same array. -/
structure Agrees (range items : JavaArray α × Except PyError Unit) : Prop where
  succeeds_iff : Succeeds range ↔ Succeeds items
  array_eq : Succeeds range → Succeeds items → range.1 = items.1

namespace PyItem

/-- The item has an index that fits into a `jint`. -/
def FitsInt (item : PyItem) : Prop :=
  ∃ n, item.index = some (.ok n) ∧ -2147483648 ≤ n ∧ n ≤ 2147483647

/-- The item has a truth value. -/
def HasTruth (item : PyItem) : Prop :=
  ∃ value, item.truth = .ok value

/-- The item is the null of a boxed class. -/
def IsNullBox (item : PyItem) : Prop :=
  ∃ type, item = .nullBoxed type

/-- The item is the Python object for a number in a buffer. -/
def Holds (item : PyItem) : CNumber → Prop
  | .integer n => item.truth = .ok (n ≠ 0) ∧ ∀ m, item.index = some (.ok m) → m = n
  | .float _ => item.index = .none ∧ item.isBool = false

end PyItem

/-- A buffer as an exporter has to describe it: a shape and strides for each dimension, and a
format that is known. -/
structure JPPyBuffer.Described (machine : Machine) (target : PrimitiveType)
    (view : JPPyBuffer) : Prop where
  shape : ∃ shape, view.shape = some shape ∧ shape.length = view.ndim
  strides : ∃ strides, view.strides = some strides ∧ strides.length = view.ndim
  format : (getConverter machine.little view.format view.itemsize target).isSome = true

/-- The buffer is the one row of numbers that the items are, and without suboffsets. -/
def JPPyBuffer.Exports (machine : Machine) (target : PrimitiveType) (view : JPPyBuffer)
    (items : List PyItem) : Prop :=
  ∃ stride conv, view.ndim = 1 ∧ view.shape = some [items.length] ∧
    view.strides = some [stride] ∧
    (∀ suboffset, view.suboffsets.bind List.head? = some suboffset → suboffset < 0) ∧
    getConverter machine.little view.format view.itemsize target = some conv ∧
    items.Forall₂ (fun item address ↦ item.Holds (machine.read conv address))
      (progression view.buf stride items.length)

namespace PySequence

/-- Every item is there when it is read. -/
def Lasting (drops : Bool) (sequence : PySequence) : Prop :=
  drops = true → ∀ val ∈ sequence.fetched, val.held = true

/-- Where nothing is said of a slip: the items last and none is a null, or a buffer is described. -/
def Regular (drops : Bool) (machine : Machine) (target : PrimitiveType)
    (sequence : PySequence) : Prop :=
  match sequence.buffer with
  | none => sequence.Lasting drops ∧ ∀ item ∈ sequence.items, ¬item.IsNullBox
  | some view => view.Described machine target

/-- What can be assigned to a range: items that can each be read, or a buffer of one dimension
and of the length of the range. -/
def Accepted (readable : PyItem → Prop) (sequence : PySequence) : Prop :=
  match sequence.buffer with
  | none => ∀ item ∈ sequence.items, readable item
  | some view => view.ndim = 1 ∧ view.shape = some [sequence.items.length]

/-- A buffer, if there is one, holds the items, and otherwise they last. -/
def Exports (drops : Bool) (machine : Machine) (target : PrimitiveType)
    (sequence : PySequence) : Prop :=
  match sequence.buffer with
  | none => sequence.Lasting drops
  | some view => view.Exports machine target sequence.items

end PySequence

/-- What is known of an assignment to a range of a primitive type, and the assignment item by
item. -/
structure Follows (range items : JavaArray α × Except PyError Unit)
    (regular accepted exports : Prop) : Prop where
  succeeds_iff : regular → (Succeeds range ↔ accepted)
  of_items : exports → Succeeds items → range = items

/-! ### Storing -/

/-- The loop stores the same where each item converts to the same. -/
theorem ComponentType.storeItems_of_ok {β : Type} {conv : β → Except PyError α}
    {conv' : Py → Except PyError α} {step : ℤ} {vals : List β} {vals' : List Py}
    (h : vals.Forall₂ (fun v v' ↦ ∀ x, conv' v' = .ok x → conv v = .ok x) vals') :
    ∀ {array array' : JavaArray α} {index : ℤ},
      storeItems conv' step array index vals' = (array', .ok ()) →
      storeItems conv step array index vals = (array', .ok ()) := by
  induction h with
  | nil => exact fun h ↦ h
  | @cons v v' vals vals' hv _ ih =>
    intro array array' index h
    cases hval : conv' v' with
    | error e =>
      rw [storeItems, hval] at h
      cases h
    | ok x =>
      rw [storeItems, hval] at h
      rw [storeItems, hv x hval]
      change (match array.store index x with
        | .error e => _
        | .ok array => _) = _ at h ⊢
      cases hstore : array.store index x with
      | error e =>
        rw [hstore] at h
        cases h
      | ok array₁ =>
        rw [hstore] at h
        exact ih h

theorem ComponentType.setArrayItems_eq (comp : ComponentType Py α) (step : ℤ) (vals : List Py) :
    ∀ (array : JavaArray α) (index : ℤ), comp.setArrayItems step array index vals =
      storeItems comp.matchConvert step array index vals := by
  induction vals with
  | nil => exact fun _ _ ↦ rfl
  | cons val vals ih =>
    intro array index
    simp only [setArrayItems, storeItems, ih]
    rfl

theorem Succeeds.eq {result : JavaArray α × Except PyError Unit} (h : Succeeds result) :
    result = (result.1, .ok ()) :=
  Prod.ext rfl h

theorem exists_forall₂_iff {f : Py → Except PyError α} {vals : List Py} :
    (∃ xs, vals.Forall₂ (fun val x ↦ f val = .ok x) xs) ↔ ∀ val ∈ vals, ∃ x, f val = .ok x := by
  induction vals with
  | nil => simp
  | cons val vals ih =>
    rw [List.forall_mem_cons, ← ih]
    constructor
    · rintro ⟨_, _ | ⟨hval, hvals⟩⟩
      exact ⟨⟨_, hval⟩, _, hvals⟩
    · rintro ⟨⟨x, hval⟩, xs, hvals⟩
      exact ⟨x :: xs, .cons hval hvals⟩

/-- A range is assigned if all of its items convert. -/
theorem ComponentType.setArrayRange_succeeds_iff (comp : ComponentType Py α)
    {array : JavaArray α} {vals : List Py} {count : ℕ}
    (range : IndexRange array.elements.length count) (hcount : vals.length = count) :
    Succeeds (comp.setArrayRange array range.start range.step vals) ↔
      ∀ val ∈ vals, ∃ x, comp.convertItem val = .ok x := by
  subst hcount
  rw [← exists_forall₂_iff]
  constructor
  · exact fun h ↦ comp.setArrayRange_ok h.eq
  · rintro ⟨xs, hconv⟩
    obtain ⟨array', hrange, -⟩ :=
      comp.setArrayRange_writes hconv range.positions_eq range.nodup range.lt_size
    rw [hrange]
    rfl

/-! ### Arrays of objects -/

/-- Two ways to assign agree when each gives the other's result where it succeeds itself. -/
theorem Agrees.of_eq {range items : JavaArray α × Except PyError Unit}
    (hrange : Succeeds range → items = range) (hitems : Succeeds items → range = items) :
    Agrees range items where
  succeeds_iff := by
    constructor
    · intro h
      rw [hrange h]
      exact h
    · intro h
      rw [hitems h]
      exact h
  array_eq h _ := by rw [hrange h]

/-- The items of an object array that all match are stored in the same way. -/
theorem ComponentType.setArrayRange_eq_setArrayItems {comp : ComponentType Py α}
    (hobject : comp.isPrimitive = false) (array : JavaArray α) (start step : ℤ)
    {vals : List Py} (hfind : ∀ val ∈ vals, comp.findJavaConversion val = true) :
    comp.setArrayRange array start step vals = comp.setArrayItems step array start vals := by
  have hall : vals.all comp.findJavaConversion = true := List.all_eq_true.2 hfind
  rw [setArrayItems_eq, setArrayRange, if_neg (Bool.eq_false_iff.1 hobject), if_pos hall]
  clear hall
  induction vals generalizing array start with
  | nil => rfl
  | cons val vals ih =>
    have hval : comp.matchConvert val = comp.convert val := by
      rw [matchConvert, if_pos (hfind val List.mem_cons_self)]
    rw [storeItems, storeItems, hval]
    cases comp.convert val >>= array.store start with
    | error e => rfl
    | ok array₁ => exact ih _ _ fun v hv ↦ hfind v (List.mem_cons_of_mem val hv)

theorem ComponentType.agrees_of_object {comp : ComponentType Py α}
    (hobject : comp.isPrimitive = false) (array : JavaArray α) (start step : ℤ)
    (vals : List Py) :
    Agrees (comp.setArrayRange array start step vals)
      (comp.setArrayItems step array start vals) := by
  refine .of_eq (fun h ↦ ?_) (fun h ↦ ?_)
  · refine (setArrayRange_eq_setArrayItems hobject array start step ?_).symm
    rw [Succeeds, setArrayRange, if_neg (Bool.eq_false_iff.1 hobject)] at h
    split_ifs at h with hall
    exact List.all_eq_true.1 hall
  · refine setArrayRange_eq_setArrayItems hobject array start step fun val hval ↦ ?_
    rw [setArrayItems_eq] at h
    obtain ⟨x, hx⟩ := exists_forall₂_iff.1 (storeItems_ok h.eq) val hval
    rw [matchConvert] at hx
    split_ifs at hx with hfind
    exact hfind

/-! ### Arrays of primitive values -/

theorem PyItem.asLongLong_assertRange_eq_ok {index : Except PyError ℤ} {x : ℤ} :
    (PyItem.asLongLong index >>= JPIntType.assertRange) = .ok x ↔
      index = .ok x ∧ -2147483648 ≤ x ∧ x ≤ 2147483647 := by
  cases index with
  | error e => simp [PyItem.asLongLong, bind, Except.bind]
  | ok n =>
    simp only [PyItem.asLongLong, bind, Except.bind]
    split_ifs with h
    · simp only [JPIntType.assertRange]
      split_ifs with h' <;> simp <;> omega
    · simp
      omega

/-- What `JPIntType::setArrayRange` makes of an item. -/
theorem JPIntType.readItem_eq_ok {item : PyItem} {x : ℤ} :
    JPIntType.readItem item = .ok x ↔
      item.index = some (.ok x) ∧ -2147483648 ≤ x ∧ x ≤ 2147483647 := by
  cases h : item.index with
  | none => simp [JPIntType, h]
  | some index => simp [JPIntType, h, PyItem.asLongLong_assertRange_eq_ok]

/-- What converts to an `int` can be read as one. -/
theorem JPIntType.readItem_of_matchConvert {item : PyItem} {x : ℤ}
    (h : JPIntType.matchConvert item = .ok x) : JPIntType.readItem item = .ok x := by
  rw [ComponentType.matchConvert] at h
  split_ifs at h with hfind
  cases item with
  | none => cases hfind
  | wrapped name index truth => cases hfind
  | nullBoxed type => cases h
  | bool value => exact h
  | python name numpyBool index truth =>
    cases index with
    | none => cases h
    | some index => exact h
  | java content inRange boxed =>
    rw [readItem_eq_ok]
    cases content with
    | float type f => cases hfind
    | char code =>
      have hx : (code : ℤ) = x := Except.ok.inj h
      simp only [JContent.InRange] at inRange
      exact ⟨by rw [← hx]; rfl, by omega, by omega⟩
    | long type n =>
      have hx : n = x := Except.ok.inj h
      subst hx
      refine ⟨rfl, ?_⟩
      cases type with
      | boolean => cases hfind
      | long => cases hfind
      | byte | short | int =>
        simp only [JContent.InRange] at inRange
        omega

/-- What converts to a `boolean` has that truth value. -/
theorem JPBooleanType.readItem_of_matchConvert {item : PyItem} {x : Bool}
    (h : JPBooleanType.matchConvert item = .ok x) : JPBooleanType.readItem item = .ok x := by
  rw [ComponentType.matchConvert] at h
  split_ifs at h
  cases item with
  | nullBoxed type => cases h
  | _ => exact h

/-- What the cast makes of a number that an item holds. -/
theorem JPIntType.toI_of_holds (machine : Machine) {item : PyItem} {number : CNumber} {x : ℤ}
    (hholds : item.Holds number) (h : JPIntType.matchConvert item = .ok x) :
    machine.toI number = x := by
  obtain ⟨hindex, hlow, hhigh⟩ := readItem_eq_ok.1 (readItem_of_matchConvert h)
  cases number with
  | float f => rw [hholds.1] at hindex; cases hindex
  | integer n =>
    obtain rfl := hholds.2 x hindex
    exact Int.bmod_eq_of_le (by omega) (by omega)

theorem JPBooleanType.toZ_of_holds {item : PyItem} {number : CNumber} {x : Bool}
    (hholds : item.Holds number) (h : JPBooleanType.matchConvert item = .ok x) :
    Machine.toZ number = x := by
  have htruth : item.truth = .ok x := readItem_of_matchConvert h
  cases number with
  | integer n =>
    rw [hholds.1] at htruth
    exact Except.ok.inj htruth
  | float f =>
    -- An item for a float is neither a bool nor an index.
    obtain ⟨hindex, hbool⟩ := hholds
    rw [ComponentType.matchConvert] at h
    split_ifs at h with hfind
    cases item with
    | none | wrapped => cases hfind
    | bool => cases hbool
    | nullBoxed => cases h
    | python name numpyBool index truth =>
      have hnone : (numpyBool || index.isSome) = true := hfind
      rw [show index = none from hindex, show numpyBool = false from hbool] at hnone
      cases hnone
    | java content inRange boxed =>
      cases content with
      | long => cases hindex
      | float | char => simp [JPBooleanType, JContent.type] at hfind

/-- The buffer path, for a buffer of the right shape. -/
theorem setArrayBuffer_row {machine : Machine} {target : PrimitiveType} (cast : CNumber → α)
    {view : JPPyBuffer} {count : ℕ} {stride : ℤ} {conv : Converter} (hndim : view.ndim = 1)
    (hshape : view.shape = some [count]) (hstrides : view.strides = some [stride])
    (hconv : getConverter machine.little view.format view.itemsize target = some conv)
    (array : JavaArray α) (start step : ℤ) :
    ∃ memory, ((∀ s, view.suboffsets.bind List.head? = some s → s < 0) → memory = view.buf) ∧
      setArrayBuffer machine target cast array start step count view =
        match ComponentType.storeItems
            (fun address ↦ (.ok (cast (machine.read conv address)) : Except PyError α)) step array
            start (progression memory stride count) with
        | (array', .ok ()) => (array', .ok ())
        | (_, .error e) => (array, .error e) := by
  refine ⟨match view.suboffsets.bind List.head? with
    | some suboffset => if 0 ≤ suboffset then machine.deref view.buf + suboffset else view.buf
    | none => view.buf, fun hsub ↦ ?_, ?_⟩
  · cases h : view.suboffsets.bind List.head? with
    | none => rfl
    | some s => exact if_neg (not_le.2 (hsub s h))
  · rw [setArrayBuffer, if_neg (not_not.2 hndim), hshape, hstrides]
    simp only [Option.bind_some, List.head?_cons, ne_eq, not_true_eq_false, if_false, hconv]

/-- What a row of numbers is assigned as. -/
theorem setArrayBuffer_of_ok {machine : Machine} {target : PrimitiveType} {cast : CNumber → α}
    {comp : ComponentType PyItem α} {items : List PyItem} {view : JPPyBuffer}
    (hcast : ∀ {item number x}, item.Holds number → comp.matchConvert item = .ok x →
      cast number = x)
    (hexports : view.Exports machine target items) {array : JavaArray α} {start step : ℤ}
    (h : Succeeds (comp.setArrayItems step array start items)) :
    setArrayBuffer machine target cast array start step items.length view =
      comp.setArrayItems step array start items := by
  obtain ⟨stride, conv, hndim, hshape, hstrides, hsub, hconv, hholds⟩ := hexports
  obtain ⟨memory, hmemory, hrow⟩ :=
    setArrayBuffer_row cast hndim hshape hstrides hconv array start step
  rw [hmemory hsub] at hrow
  have hreads : (progression view.buf stride items.length).Forall₂
      (fun address item ↦ ∀ x, comp.matchConvert item = .ok x →
        (.ok (cast (machine.read conv address)) : Except PyError α) = .ok x) items :=
    hholds.flip.imp fun address item hitem x hx ↦ by rw [hcast hitem hx]
  have hitems := h.eq
  rw [ComponentType.setArrayItems_eq] at hitems
  rw [hrow, ComponentType.storeItems_of_ok hreads hitems, ComponentType.setArrayItems_eq, hitems]

/-- A buffer that is described is accepted for its dimension and its length. -/
theorem setArrayBuffer_succeeds_iff {machine : Machine} {target : PrimitiveType}
    {cast : CNumber → α} {view : JPPyBuffer} (hview : view.Described machine target)
    {array : JavaArray α} {count : ℕ} (range : IndexRange array.elements.length count) :
    Succeeds (setArrayBuffer machine target cast array range.start range.step count view) ↔
      view.ndim = 1 ∧ view.shape = some [count] := by
  obtain ⟨⟨shape, hshape, hlen⟩, ⟨strides, hstrides, hlen'⟩, hformat⟩ := hview
  obtain ⟨conv, hconv⟩ := Option.isSome_iff_exists.1 hformat
  by_cases hndim : view.ndim = 1
  · obtain ⟨vshape, rfl⟩ := List.length_eq_one_iff.1 (hlen.trans hndim)
    obtain ⟨stride, rfl⟩ := List.length_eq_one_iff.1 (hlen'.trans hndim)
    by_cases hcount : vshape = count
    · subst hcount
      refine iff_of_true ?_ ⟨hndim, hshape⟩
      obtain ⟨memory, -, hrow⟩ :=
        setArrayBuffer_row cast hndim hshape hstrides hconv array range.start range.step
      have hreads : (progression memory stride vshape).Forall₂
          (fun address x ↦
            (.ok (cast (machine.read conv address)) : Except PyError α) = .ok x)
          ((progression memory stride vshape).map fun a ↦ cast (machine.read conv a)) := by
        rw [List.forall₂_map_right_iff]
        exact List.forall₂_same.2 fun _ _ ↦ rfl
      have hbase : range.positions.map (↑) = progression range.start range.step
          (progression memory stride vshape).length := by
        rw [length_progression]
        exact range.positions_eq
      obtain ⟨array', hstore, -⟩ :=
        ComponentType.storeItems_writes hreads hbase range.nodup range.lt_size
      rw [hrow, hstore]
      rfl
    · refine iff_of_false (fun h ↦ ?_) fun h ↦ ?_
      · simp [Succeeds, setArrayBuffer, hndim, hshape, hstrides, hcount] at h
      · rw [hshape] at h
        exact hcount (List.head_eq_of_cons_eq (Option.some.inj h.2))
  · refine iff_of_false (fun h ↦ ?_) fun h ↦ hndim h.1
    simp [Succeeds, setArrayBuffer, hndim] at h

/-- The range of a primitive type follows the items, when what converts can be read. -/
theorem ComponentType.setPrimitiveRange_follows {comp : ComponentType PyItem α}
    (drops : Bool) {machine : Machine} {target : PrimitiveType} {cast : CNumber → α}
    {readable : PyItem → Prop}
    (hprim : comp.isPrimitive = true)
    (hreadable : ∀ item, (∃ x, comp.readItem item = .ok x) ↔ readable item)
    (hread : ∀ {item x}, comp.matchConvert item = .ok x → comp.readItem item = .ok x)
    (hcast : ∀ {item number x}, item.Holds number → comp.matchConvert item = .ok x →
      cast number = x)
    {array : JavaArray α} (sequence : PySequence)
    (range : IndexRange array.elements.length sequence.items.length) :
    Follows (comp.setPrimitiveRange drops machine target cast array range.start range.step sequence)
      (comp.setArrayItems range.step array range.start sequence.items)
      (sequence.Regular drops machine target) (sequence.Accepted readable)
      (sequence.Exports drops machine target) := by
  obtain ⟨fetched, buffer⟩ := sequence
  cases buffer with
  | some view =>
    exact ⟨fun hview ↦ setArrayBuffer_succeeds_iff hview range,
      fun hexports ↦ setArrayBuffer_of_ok hcast hexports⟩
  | none =>
    have hprim' : (comp.fetching drops).isPrimitive = true := hprim
    have hlasting : PySequence.Lasting drops ⟨fetched, none⟩ → ∀ val ∈ fetched,
        (comp.fetching drops).readItem val = comp.readItem val.item := by
      intro hlasting val hval
      refine if_neg fun hgone ↦ ?_
      obtain ⟨hdrops, hheld⟩ := Bool.and_eq_true_iff.1 hgone
      simp [hlasting hdrops val hval] at hheld
    refine ⟨fun hregular ↦ ?_, fun hexports h ↦ ?_⟩
    · have hcount : fetched.length = (fetched.map SequenceItem.item).length :=
        (List.length_map ..).symm
      refine ((comp.fetching drops).setArrayRange_succeeds_iff range hcount).trans ?_
      show _ ↔ ∀ item ∈ fetched.map SequenceItem.item, readable item
      rw [List.forall_mem_map]
      refine forall₂_congr fun val hval ↦ ?_
      rw [← hreadable, convertItem, if_pos hprim', hlasting hregular.1 val hval]
    · have hitems := h.eq
      rw [setArrayItems_eq] at hitems
      have hsame : fetched.Forall₂ (fun v v' ↦ ∀ x, comp.matchConvert v' = .ok x →
          (comp.fetching drops).readItem v = .ok x) (fetched.map SequenceItem.item) := by
        rw [List.forall₂_map_right_iff]
        refine List.forall₂_same.2 fun val hval x hx ↦ ?_
        rw [hlasting hexports val hval]
        exact hread hx
      rw [setPrimitiveRange, setArrayItems_eq, hitems, setArrayRange, if_pos hprim',
        storeItems_of_ok hsame hitems]

/-- A machine that has the double `1.5` everywhere in its memory. -/
def oneAndAHalf : Machine where
  little := true
  deref := id
  load _ _ _ := .float (.finite (3 / 2))
  castOverflow _ := -2147483648

/-- A row of one double. -/
def oneDouble : JPPyBuffer where
  buf := 0
  len := 8
  itemsize := 8
  format := some ['d']
  ndim := 1
  shape := some [1]
  strides := some [8]
  suboffsets := none

/-- An array of one element. -/
def oneElement (x : α) : JavaArray α where
  elements := [x]
  length_le := by simp

end JPype
