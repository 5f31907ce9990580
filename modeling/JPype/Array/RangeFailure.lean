import JPype.Array.RangeAssignment
import JPype.Foundation.Hoare

/-!
# Assignments to a range that fail

`setArrayRange` may fail at any item: reading the item, matching it, and converting it all run
Python code. Here they are programs that may raise and that change a state of their own, the
`world`, but not the array that is assigned.

The primitive types write to a copy, which the destructor of the accessor throws away when something
is raised. So they leave the array alone (`triple_setArrayRange`). An object array has all items
matched before the first one is stored, but a conversion may still raise when it is carried out, and
then the items before it stay stored. `rangeFailsClean_iff` says when that makes no difference.
-/

namespace JPype

open Foundation

/-! ### The state of an assignment -/

/-- The array that is assigned, the copy of its elements that an accessor has got, and the rest of
the world. -/
structure RangeState (W α : Type) where
  world : W
  array : JavaArray α
  elem : Option (JavaArray α)

/-- A step of an assignment. -/
abbrev RangeProgram (W α β : Type) := Program (RangeState W α) PyError β

variable {W Py α β : Type}

/-- A program that does not touch the array. -/
def inWorld (x : Program W PyError β) : RangeProgram W α β :=
  x.onPart RangeState.world fun w s ↦ { s with world := w }

/-- A sequence that is assigned, as the two protocols of Python show it. -/
structure SequenceObject (W Py : Type) where
  /-- `PyObject_CheckBuffer` -/
  checkBuffer : Bool
  /-- The buffer that the object gives for `PyBUF_FULL_RO`, if it gives one. -/
  getBuffer : Program W PyError (Option JPPyBuffer)
  /-- `PySequence_GetItem` -/
  getItem : ℕ → Program W PyError Py

/-! ### The accessor of a primitive array -/

namespace JPPrimitiveArrayAccessor

/-- The constructor: the JNI function hands out a copy. -/
def access : RangeProgram W α Unit :=
  modify fun s ↦ { s with elem := some s.array }

/-- `val[index] = x` -/
def set (index : ℤ) (x : α) : RangeProgram W α Unit := do
  let s ← get
  match s.elem.elim (.error .fault) (fun elem ↦ elem.store index x) with
  | .error e => throw e
  | .ok elem => MonadStateOf.set { s with elem := some elem }

/-- The elements are written back and released. -/
def commit : RangeProgram W α Unit :=
  modify fun s ↦ { s with array := s.elem.getD s.array, elem := none }

/-- The elements are released. -/
def abort : RangeProgram W α Unit :=
  modify fun s ↦ { s with elem := none }

/-- The scope of an accessor: its destructor aborts unless `commit` was called. -/
def scope (body : RangeProgram W α Unit) : RangeProgram W α Unit := do
  access
  tryCatch (do body; commit) fun e ↦ do abort; throw e

end JPPrimitiveArrayAccessor

/-- The loop of `setArrayRange`: `n` items from the `i`th one on go to `index`, `index + step`, … -/
def rangeLoop (convert : ℕ → RangeProgram W α α) (write : ℤ → α → RangeProgram W α Unit)
    (step : ℤ) :
    ℕ → ℕ → ℤ → RangeProgram W α Unit
  | _, 0, _ => pure ()
  | i, n + 1, index => do
    let x ← convert i
    write index x
    rangeLoop convert write step (i + 1) n (index + step)

/-! ### Primitive component types -/

/-- What the Python API gives of an item. -/
structure ItemOperations (W Py : Type) where
  /-- `Py_TYPE(item)->tp_name` -/
  typeName : Py → String
  /-- `PyIndex_Check` -/
  checkIndex : Py → Bool
  /-- `PyLong_AsLongLong` -/
  asLongLong : Py → Program W PyError ℤ
  /-- `PyObject_IsTrue` -/
  isTrue : Py → Program W PyError Bool
  /-- `JPPyString::asCharUTF16` -/
  asCharUTF16 : Py → Program W PyError ℕ
  /-- `PyFloat_AsDouble` -/
  asDouble : Py → Program W PyError PyFloat
  /-- The cast of C from `double` to `float`. -/
  toFloat : PyFloat → PyFloat

/-- What the `setArrayRange` of the primitive types differ in. -/
structure PrimitiveRange (W Py α : Type) where
  /-- The type to which a buffer is converted, and what is taken from the converted number; `char`
  has no path for buffers. -/
  buffer : Option (PrimitiveType × (CNumber → α))
  /-- How an item of a sequence is read. -/
  readItem : Py → Program W PyError α

namespace ItemOperations

variable (ops : ItemOperations W Py)

/-- An item is read by its index, and the number has to pass `assertRange`. -/
def readIndex (type : String) (assertRange : ℤ → Except PyError ℤ) (item : Py) :
    Program W PyError ℤ := do
  if !ops.checkIndex item then
    throw (.typeError ("Unable to implicitly convert '" ++ ops.typeName item ++ "' to " ++ type))
  let v ← ops.asLongLong item
  match assertRange v with
  | .ok v => pure v
  | .error e => throw e

/-- `JPByteType::setArrayRange` -/
def JPByteType (cast : CNumber → ℤ) : PrimitiveRange W Py ℤ where
  buffer := some (.byte, cast)
  readItem := ops.readIndex "byte" fun l ↦
    if l < -128 ∨ 127 < l then .error (.overflowError "Cannot convert value to Java byte")
    else .ok l

/-- `JPShortType::setArrayRange` -/
def JPShortType (cast : CNumber → ℤ) : PrimitiveRange W Py ℤ where
  buffer := some (.short, cast)
  readItem := ops.readIndex "short" fun l ↦
    if l < -32768 ∨ 32767 < l then .error (.overflowError "Cannot convert value to Java short")
    else .ok l

/-- `JPIntType::setArrayRange` -/
def JPIntType (cast : CNumber → ℤ) : PrimitiveRange W Py ℤ where
  buffer := some (.int, cast)
  readItem := ops.readIndex "int" JPIntType.assertRange

/-- `JPLongType::setArrayRange` -/
def JPLongType (cast : CNumber → ℤ) : PrimitiveRange W Py ℤ where
  buffer := some (.long, cast)
  readItem := ops.readIndex "long" .ok

/-- `JPBooleanType::setArrayRange` -/
def JPBooleanType (cast : CNumber → Bool) : PrimitiveRange W Py Bool where
  buffer := some (.boolean, cast)
  readItem := ops.isTrue

/-- `JPCharType::setArrayRange` -/
def JPCharType : PrimitiveRange W Py ℕ where
  buffer := none
  readItem := ops.asCharUTF16

/-- `JPFloatType::setArrayRange` -/
def JPFloatType (cast : CNumber → PyFloat) : PrimitiveRange W Py PyFloat where
  buffer := some (.float, cast)
  readItem item := do
    let v ← ops.asDouble item
    pure (ops.toFloat v)

/-- `JPDoubleType::setArrayRange` -/
def JPDoubleType (cast : CNumber → PyFloat) : PrimitiveRange W Py PyFloat where
  buffer := some (.double, cast)
  readItem := ops.asDouble

end ItemOperations

namespace PrimitiveRange

open JPPrimitiveArrayAccessor

/-- The buffer path. -/
def storeBuffer (machine : Machine) (target : PrimitiveType) (cast : CNumber → α) (start : ℤ)
    (length : ℕ) (step : ℤ) (view : JPPyBuffer) : RangeProgram W α Unit :=
  if view.ndim ≠ 1 then throw (.typeError "buffer dims incorrect")
  else
    match view.shape.bind List.head?, view.strides.bind List.head? with
    | some vshape, some vstep =>
      if vshape ≠ length then throw (.valueError "mismatched size")
      else
        let memory :=
          match view.suboffsets.bind List.head? with
          | some suboffset => if 0 ≤ suboffset then machine.deref view.buf + suboffset else view.buf
          | none => view.buf
        let conv := getConverter machine.little view.format view.itemsize target
        let convert (i : ℕ) : RangeProgram W α α :=
          match conv with
          | none => throw .fault
          | some conv => pure (cast (machine.read conv (memory + i * vstep)))
        rangeLoop convert set step 0 length start
    | _, _ => throw .fault

/-- The item `i` of a sequence, read by the type. -/
def readNext (comp : PrimitiveRange W Py α) (sequence : SequenceObject W Py) (i : ℕ) :
    Program W PyError α := do
  let item ← sequence.getItem i
  comp.readItem item

/-- The buffer of the sequence, if it is looked for and there is one. -/
def findBuffer (comp : PrimitiveRange W Py α) (sequence : SequenceObject W Py) :
    Program W PyError (Option (PrimitiveType × (CNumber → α) × JPPyBuffer)) :=
  match comp.buffer with
  | none => pure none
  | some (target, cast) =>
    if sequence.checkBuffer then do
      let view ← sequence.getBuffer
      pure (view.map fun view ↦ (target, cast, view))
    else pure none

/-- `setArrayRange` of a primitive type. -/
def setArrayRange (comp : PrimitiveRange W Py α) (machine : Machine) (start : ℤ) (length : ℕ)
    (step : ℤ) (sequence : SequenceObject W Py) : RangeProgram W α Unit :=
  scope do
    let found ← inWorld (comp.findBuffer sequence)
    match found with
    | some (target, cast, view) => storeBuffer machine target cast start length step view
    | none => rangeLoop (fun i ↦ inWorld (comp.readNext sequence i)) set step 0 length start

end PrimitiveRange

/-! ### Object component types -/

/-- A `JPClass` that is not primitive, with its conversions. After `match.convert` a reference is
stored by `SetObjectArrayElement`, which raises an exception if it does not go into the array; that
is part of `convert` here. -/
structure ObjectRange (W Py α : Type) where
  /-- Whether `findJavaConversion` reports at least `_implicit`. -/
  findJavaConversion : Py → Program W PyError Bool
  /-- `match.convert()` -/
  convert : Py → Program W PyError α

namespace ObjectRange

variable (comp : ObjectRange W Py α) (sequence : SequenceObject W Py)

/-- The first loop of `JPClass::setArrayRange`: `n` items from the `i`th one on are matched. -/
def verify : ℕ → ℕ → Program W PyError Unit
  | _, 0 => pure ()
  | i, n + 1 => do
    let v ← sequence.getItem i
    let found ← comp.findJavaConversion v
    if !found then throw (.typeError "Unable to convert")
    verify (i + 1) n

/-- The item `i`, matched again and converted. -/
def convertNext (i : ℕ) : Program W PyError α := do
  let v ← sequence.getItem i
  let _ ← comp.findJavaConversion v
  comp.convert v

/-- `SetObjectArrayElement` -/
def setObjectArrayElement (index : ℤ) (x : α) : RangeProgram W α Unit := do
  let s ← get
  match s.array.store index x with
  | .error e => throw e
  | .ok array => set { s with array := array }

/-- `JPClass::setArrayRange` -/
def setArrayRange (start : ℤ) (length : ℕ) (step : ℤ) : RangeProgram W α Unit := do
  inWorld (comp.verify sequence 0 length)
  rangeLoop (fun i ↦ inWorld (comp.convertNext sequence i)) setObjectArrayElement step
    0 length start

/-- What the items from the `i`th one on convert to, up to the first conversion that raises, and
what that one raises. -/
def conversions : ℕ → ℕ → W → List α × Option PyError
  | _, 0, _ => ([], none)
  | i, n + 1, w =>
    match (comp.convertNext sequence i).exec w with
    | (.error e, _) => ([], some e)
    | (.ok x, w) => (x :: (conversions (i + 1) n w).1, (conversions (i + 1) n w).2)

end ObjectRange

/-- A component type. -/
inductive RangeComponent (W Py α : Type) where
  | primitive (comp : PrimitiveRange W Py α)
  | object (comp : ObjectRange W Py α)

namespace RangeComponent

/-- `setArrayRange` of a component type. -/
def setArrayRange (machine : Machine) (sequence : SequenceObject W Py) (start : ℤ) (length : ℕ)
    (step : ℤ) : RangeComponent W Py α → RangeProgram W α Unit
  | primitive comp => comp.setArrayRange machine start length step sequence
  | object comp => comp.setArrayRange sequence start length step

end RangeComponent

/-- If the assignment raises, the array is as it was. -/
def FailsClean (assign : RangeProgram W α Unit) (s : RangeState W α) : Prop :=
  ∀ e s', assign.exec s = (.error e, s') → s'.array = s.array

/-! ### Primitive types -/

namespace JPPrimitiveArrayAccessor

variable {array : JavaArray α}

/-- The array is not written. -/
def Keeps (array : JavaArray α) (s : RangeState W α) : Prop :=
  s.array = array

theorem triple_inWorld (x : Program W PyError β) :
    Triple (Keeps array) (inWorld x : RangeProgram W α β) (fun _ ↦ Keeps array)
      fun _ ↦ Keeps array :=
  Triple.onPart fun _ _ hs ↦ hs

theorem triple_set (index : ℤ) (x : α) :
    Triple (Keeps array) (set index x : RangeProgram W α Unit) (fun _ ↦ Keeps array)
      fun _ ↦ Keeps array := by
  refine Triple.get_bind fun s hs ↦ ?_
  generalize s.elem.elim (.error .fault) (fun elem ↦ elem.store index x) = stored
  cases stored with
  | error e =>
    refine Triple.throw fun s' heq ↦ ?_
    obtain rfl : s' = s := heq
    exact hs
  | ok elem => exact fun s' _ ↦ hs

/-- Writing to the copy leaves the array alone, whatever the items do. -/
theorem triple_rangeLoop {convert : ℕ → RangeProgram W α α} {step : ℤ}
    (hconvert : ∀ i, Triple (Keeps array) (convert i) (fun _ ↦ Keeps array) fun _ ↦ Keeps array)
    (i n : ℕ) (index : ℤ) :
    Triple (Keeps array) (rangeLoop convert set step i n index) (fun _ ↦ Keeps array)
      fun _ ↦ Keeps array := by
  induction n generalizing i index with
  | zero => exact Triple.pure fun s hs ↦ hs
  | succ n ih =>
    refine Triple.bind (hconvert i) fun x ↦ ?_
    exact Triple.bind (triple_set index x) fun _ ↦ ih (i + 1) (index + step)

/-- In the scope of an accessor, what is raised leaves the array alone if the body does. -/
theorem triple_scope {body : RangeProgram W α Unit}
    (hbody : Triple (Keeps array) body (fun _ ↦ Keeps array) fun _ ↦ Keeps array) :
    Triple (Keeps array) (scope body) (fun _ _ ↦ True) fun _ ↦ Keeps array := by
  have haccess : Triple (Keeps array) (access : RangeProgram W α Unit) (fun _ ↦ Keeps array)
      fun _ ↦ Keeps array := Triple.modify fun s hs ↦ hs
  have habort : Triple (Keeps array) (abort : RangeProgram W α Unit) (fun _ ↦ Keeps array)
      fun _ ↦ Keeps array := Triple.modify fun s hs ↦ hs
  refine Triple.bind haccess fun _ ↦ Triple.tryCatch (Triple.bind hbody fun _ ↦ ?_) fun e ↦ ?_
  · exact Triple.modify fun _ _ ↦ trivial
  · exact Triple.bind habort fun _ ↦ Triple.throw fun s hs ↦ hs

end JPPrimitiveArrayAccessor

namespace PrimitiveRange

open JPPrimitiveArrayAccessor

theorem triple_storeBuffer {array : JavaArray α} (machine : Machine) (target : PrimitiveType)
    (cast : CNumber → α) (start : ℤ) (length : ℕ) (step : ℤ) (view : JPPyBuffer) :
    Triple (Keeps array) (storeBuffer machine target cast start length step view :
      RangeProgram W α Unit) (fun _ ↦ Keeps array) fun _ ↦ Keeps array := by
  rw [storeBuffer]
  split
  · exact Triple.throw fun s hs ↦ hs
  · split
    · split
      · exact Triple.throw fun s hs ↦ hs
      · refine triple_rangeLoop (fun i ↦ ?_) 0 length start
        split
        · exact Triple.throw fun s hs ↦ hs
        · exact Triple.pure fun s hs ↦ hs
    · exact Triple.throw fun s hs ↦ hs

/-- A primitive type leaves the array alone when something is raised. -/
theorem triple_setArrayRange {array : JavaArray α} (comp : PrimitiveRange W Py α)
    (machine : Machine) (start : ℤ) (length : ℕ) (step : ℤ) (sequence : SequenceObject W Py) :
    Triple (Keeps array) (comp.setArrayRange machine start length step sequence)
      (fun _ _ ↦ True) fun _ ↦ Keeps array := by
  refine triple_scope (Triple.bind (triple_inWorld _) fun found ↦ ?_)
  cases found with
  | some found => exact triple_storeBuffer machine found.1 found.2.1 start length step found.2.2
  | none => exact triple_rangeLoop (fun i ↦ triple_inWorld _) 0 length start

end PrimitiveRange

/-! ### Object types -/

theorem Writes.eq_self_iff {base : List ℕ} {xs before after : List α}
    (h : Writes base xs before after) :
    after = before ↔ ∀ j k : ℕ, base[j]? = some k → before[k]? = xs[j]? := by
  constructor
  · intro heq j k hj
    rw [← h.written j k hj, heq]
  · intro hsame
    refine List.ext_getElem? fun k ↦ ?_
    by_cases hk : k ∈ base
    · obtain ⟨j, hj⟩ := List.mem_iff_getElem?.1 hk
      rw [h.written j k hj, hsame j k hj]
    · exact h.frame k hk

namespace ObjectRange

variable (comp : ObjectRange W Py α) (sequence : SequenceObject W Py)

/-- The second loop stores what the items convert to, up to the one that raises. -/
theorem exec_rangeLoop {step : ℤ} {n : ℕ} : ∀ {base : List ℕ} {i : ℕ} {index : ℤ}
    {s : RangeState W α}, base.map (↑) = progression index step n → base.Nodup →
    (∀ k ∈ base, k < s.array.elements.length) →
    ∃ s', (rangeLoop (fun i ↦ inWorld (comp.convertNext sequence i)) setObjectArrayElement step
        i n index).exec s =
        ((comp.conversions sequence i n s.world).2.elim (.ok ()) .error, s') ∧
      Writes (base.take (comp.conversions sequence i n s.world).1.length)
        (comp.conversions sequence i n s.world).1 s.array.elements s'.array.elements := by
  induction n with
  | zero =>
    intro base i index s hbase _ _
    obtain rfl : base = [] := List.map_eq_nil_iff.1 hbase
    exact ⟨s, rfl, .nil _⟩
  | succ n ih =>
    intro base i index s hbase hnodup hlt
    rw [progression_succ] at hbase
    obtain ⟨k, base, rfl, rfl, hbase⟩ := List.map_eq_cons_iff.1 hbase
    obtain ⟨hnew, hnodup⟩ := List.nodup_cons.1 hnodup
    have hk : k < s.array.elements.length := hlt k List.mem_cons_self
    rw [rangeLoop, Program.exec_bind, inWorld, Program.exec_onPart, conversions]
    rcases (comp.convertNext sequence i).exec s.world with ⟨e | x, w⟩
    · exact ⟨_, rfl, .nil _⟩
    · let s₁ : RangeState W α := { s with world := w, array := s.array.put k x }
      have hlt₁ : ∀ p ∈ base, p < s₁.array.elements.length := fun p hp ↦ by
        show p < (s.array.elements.set k x).length
        rw [List.length_set]
        exact hlt p (List.mem_cons_of_mem k hp)
      obtain ⟨s', hexec, hwrites⟩ := ih (i := i + 1) (s := s₁) hbase hnodup hlt₁
      have hstore : (setObjectArrayElement (k : ℤ) x : RangeProgram W α Unit).exec
          { s with world := w } = (.ok (), s₁) := by
        rw [setObjectArrayElement, Program.exec_bind]
        simp only [Program.exec_get]
        rw [JavaArray.store_natCast hk]
        rfl
      refine ⟨s', ?_, ?_⟩
      · dsimp only
        rw [Program.exec_bind, hstore]
        exact hexec
      · dsimp only
        rw [List.length_cons, List.take_succ_cons]
        exact .cons hk (fun hmem ↦ hnew (List.mem_of_mem_take hmem)) hwrites

/-- The items are not all matched, or all are converted, or those converted before the first one
that raises are in the array already. -/
def Spares {size length : ℕ} (range : IndexRange size length) (s : RangeState W α) : Prop :=
  match (comp.verify sequence 0 length).exec s.world with
  | (.error _, _) => True
  | (.ok _, w) =>
    (comp.conversions sequence 0 length w).2 = none ∨
      ∀ (j : ℕ) (x : α), (comp.conversions sequence 0 length w).1[j]? = some x →
        ∀ k : ℕ, range.positions[j]? = some k → s.array.elements[k]? = some x

variable {comp sequence}

theorem clean_iff {size length : ℕ} (range : IndexRange size length) (s : RangeState W α)
    (hs : s.array.elements.length = size) :
    FailsClean (comp.setArrayRange sequence range.start length range.step) s ↔
      comp.Spares sequence range s := by
  rw [FailsClean, setArrayRange, Program.exec_bind, inWorld, Program.exec_onPart, Spares]
  rcases (comp.verify sequence 0 length).exec s.world with ⟨e | _, w⟩
  · refine iff_of_true (fun e' s' h ↦ ?_) trivial
    obtain rfl : { s with world := w } = s' := congrArg Prod.snd h
    rfl
  · obtain ⟨s', hexec, hwrites⟩ := comp.exec_rangeLoop sequence (i := 0)
      (s := { s with world := w }) range.positions_eq range.nodup fun k hk ↦
        hs ▸ range.lt_size k hk
    dsimp only at hexec hwrites ⊢
    rw [hexec]
    have hsame := hwrites.eq_self_iff
    rcases hend : (comp.conversions sequence 0 length w).2 with _ | e
    · exact iff_of_true (fun e' s'' h ↦ nomatch congrArg Prod.fst h) (.inl rfl)
    · rw [or_iff_right (Option.some_ne_none e)]
      have hlength : length = range.positions.length := by
        rw [← List.length_map (f := ((↑) : ℕ → ℤ)), range.positions_eq, length_progression]
      constructor
      · intro h j x hx k hk
        have heq : s'.array.elements = s.array.elements :=
          congrArg JavaArray.elements (h e s' rfl)
        have hj : j < (comp.conversions sequence 0 length w).1.length :=
          (List.getElem?_eq_some_iff.1 hx).1
        rw [hsame.1 heq j k ((List.getElem?_take_of_lt hj).trans hk), hx]
      · intro h e' s'' hrun
        obtain rfl : s' = s'' := congrArg Prod.snd hrun
        refine JavaArray.ext (hsame.2 fun j k hj ↦ ?_)
        obtain ⟨hlt, -⟩ := List.getElem?_eq_some_iff.1 hj
        rw [List.length_take, lt_min_iff] at hlt
        have hx := List.getElem?_eq_getElem hlt.1
        rw [hx]
        exact h j _ hx k ((List.getElem?_take_of_lt hlt.1).symm.trans hj)

end ObjectRange

/-! ### All types -/

namespace RangeComponent

/-- Where a failed assignment makes no difference: primitive types, and the object arrays for which
nothing new is stored before a conversion raises. -/
def Spares (sequence : SequenceObject W Py) {size length : ℕ} (range : IndexRange size length)
    (s : RangeState W α) : RangeComponent W Py α → Prop
  | primitive _ => True
  | object comp => comp.Spares sequence range s

theorem rangeFailsClean_iff (machine : Machine) (comp : RangeComponent W Py α)
    (sequence : SequenceObject W Py) {size length : ℕ} (range : IndexRange size length)
    (s : RangeState W α) (hs : s.array.elements.length = size) :
    FailsClean (comp.setArrayRange machine sequence range.start length range.step) s ↔
      comp.Spares sequence range s := by
  cases comp with
  | primitive comp =>
    refine iff_of_true (fun e s' h ↦ ?_) trivial
    have hclean := comp.triple_setArrayRange machine range.start length range.step sequence s rfl
    rw [show (comp.setArrayRange machine range.start length range.step sequence).exec s = _ from h]
      at hclean
    exact hclean
  | object comp => exact ObjectRange.clean_iff range s hs

/-- An array of objects that is assigned Python ints: all of them match `java.lang.Long`, and those
that do not fit raise when they are converted. -/
def objectsFromInts : RangeComponent Unit ℤ ℤ :=
  .object {
    findJavaConversion := fun _ ↦ pure true
    convert := fun n ↦
      if n < 9223372036854775808 then pure n
      else throw (.overflowError "int too big to convert") }

/-- A list of Python ints. -/
def intList (l : List ℤ) : SequenceObject Unit ℤ where
  checkBuffer := false
  getBuffer := pure none
  getItem i :=
    match l[i]? with
    | some n => pure n
    | none => throw (.indexError "list index out of range")

/-- `array[:]` of an array of length two. -/
def wholeOfTwo : IndexRange 2 2 where
  start := 0
  step := 1
  positions := [0, 1]
  positions_eq := by decide
  nodup := by decide
  lt_size := by decide

/-- `[5, 8]`, of objects. -/
def twoObjects : RangeState Unit ℤ where
  world := ()
  array := ⟨[5, 8], by decide⟩
  elem := none

/-- The first item is stored before the second one raises, but it was there. -/
theorem rangeFailsClean_sample : FailsClean
    (objectsFromInts.setArrayRange ⟨true, id, fun _ _ ↦ .integer, fun _ ↦ 0⟩
      (intList [5, 9223372036854775808]) wholeOfTwo.start 2 wholeOfTwo.step) twoObjects := by
  refine (rangeFailsClean_iff _ objectsFromInts
    (intList [5, 9223372036854775808]) wholeOfTwo twoObjects
    rfl).2 (.inr fun j x hx k hk ↦ ?_)
  cases j with
  | zero =>
    obtain rfl : (5 : ℤ) = x := Option.some.inj hx
    obtain rfl : 0 = k := Option.some.inj hk
    rfl
  | succ j => cases hx

theorem not_rangeFailsClean : ¬ FailsClean
    (objectsFromInts.setArrayRange ⟨true, id, fun _ _ ↦ .integer, fun _ ↦ 0⟩
      (intList [7, 9223372036854775808]) wholeOfTwo.start 2 wholeOfTwo.step) twoObjects := by
  intro h
  have hclean := h (.overflowError "int too big to convert") ⟨(), ⟨[7, 8], by decide⟩, none⟩ rfl
  exact absurd (congrArg JavaArray.elements hclean) (by decide)

end RangeComponent
end JPype
