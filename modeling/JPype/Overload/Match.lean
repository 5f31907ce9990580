import JPype.Java.Reflection
import Mathlib.Order.Lattice
import Mathlib.Data.Nat.Basic
import Mathlib.Data.List.Basic

/-!
# Match quality and method matching

The native side of a Java call, up to the JNI boundary: `JPMatch::Type`, the per-argument
`JPMatch` and per-call `JPMethodMatch` records, `JPMethod::matches`, which rates an overload
against an argument list, and `JPMethod::packArgs`, which consumes that rating and fills the
`jvalue` vector.

Conversion of one argument is a parameter here (`Conversions`): nothing in these functions
looks inside a Python value or a Java class. What a `JPMatch` remembers between the two
functions is the conversion chosen by the last `findJavaConversion` on it, and that is
determined by the class it was last asked about; `JPMatch.target` records that class.

Two kinds of failure are kept apart. `Fault.outOfBounds` is a read or write past the end of a
`std::vector`, which C++ leaves undefined; the remaining faults are exceptions the code raises.
-/

namespace JPype

/-- `JPMatch::Type`. -/
inductive MatchType where
  | none
  | explicit
  | implicit
  | derived
  | exact
  deriving DecidableEq, Repr

namespace MatchType

/-- The enumerator's value in `jp_match.h`. -/
def toNat : MatchType → ℕ
  | none => 0
  | explicit => 1
  | implicit => 2
  | derived => 3
  | exact => 4

theorem toNat_injective : Function.Injective toNat := by
  intro a b h
  cases a <;> cases b <;> first | rfl | exact absurd h (by decide)

instance : LinearOrder MatchType :=
  LinearOrder.lift' toNat toNat_injective

theorem le_exact (q : MatchType) : q ≤ exact := by
  cases q <;> decide

end MatchType

/-- `JPMethod`: one Java overload. `ptr` is the identity of the C++ object, which is what
`m_MoreSpecificOverloads` lists and what `checkMoreSpecificThan` compares.

A varargs executable has at least one parameter (its array); the field carries that. -/
structure JPMethod (Cls : Type) where
  /-- Identity of the object. -/
  ptr : ℕ
  /-- `m_Name`, which `toString` returns. -/
  name : String
  /-- `m_Class`. -/
  declaringClass : Cls
  /-- The `static` and `constructor` bits of `m_Modifiers`. -/
  kind : MethodKind
  /-- The `varargs` bit of `m_Modifiers`. -/
  isVarArgs : Bool
  /-- The parameters of the Java executable. -/
  javaParameters : List Cls
  /-- `m_MoreSpecificOverloads`. -/
  moreSpecificOverloads : List ℕ
  /-- A varargs executable declares its array parameter. -/
  javaParameters_ne_nil : isVarArgs = true → javaParameters ≠ []
  deriving DecidableEq

namespace JPMethod

variable {Cls : Type}

/-- `JPMethod::isStatic` -/
def isStatic (m : JPMethod Cls) : Bool := decide (m.kind = .staticMethod)

/-- `JPMethod::isConstructor` -/
def isConstructor (m : JPMethod Cls) : Bool := decide (m.kind = .constructor)

/-- `JPMethod::isInstance` -/
def isInstance (m : JPMethod Cls) : Bool := !m.isStatic && !m.isConstructor

/-- `m_ParameterTypes`, as `TypeManager.populateMethod` assigns it: an instance method takes
its declaring class in front. -/
def parameterTypes (m : JPMethod Cls) : List Cls :=
  if m.isInstance then m.declaringClass :: m.javaParameters else m.javaParameters

/-- `JPMethod::checkMoreSpecificThan` -/
def checkMoreSpecificThan (m other : JPMethod Cls) : Bool :=
  m.moreSpecificOverloads.contains other.ptr

end JPMethod

/-- What method matching uses of the conversion layer: `JPClass::findJavaConversion` as a
quality for each class and argument, and the component type of an array class. -/
structure Conversions (Cls Py : Type) where
  /-- The quality `findJavaConversion` reports. -/
  findJavaConversion : Cls → Py → MatchType
  /-- `JPArrayClass::getComponentType` -/
  getComponentType : Cls → Cls

/-- A failure of matching or packing. -/
inductive Fault where
  /-- A `std::vector` indexed past its end. -/
  | outOfBounds
  /-- `SystemError "Fail in conversion"`: `JPMatch::convert` without a conversion. -/
  | failInConversion
  /-- `TypeError "Unable to convert"` from `setArrayItem`. -/
  | unableToConvert
  /-- `NegativeArraySizeException` from `newArrayOf`. -/
  | negativeArraySize
  deriving DecidableEq, Repr

/-- `JPMatch`: one argument and the class whose conversion was last recorded on it. -/
structure JPMatch (Cls Py : Type) where
  /-- The Python argument. -/
  object : Py
  /-- The class of the last `findJavaConversion`; `none` while `conversion` is null. -/
  target : Option Cls := none

/-- `JPMethodMatch`, less its hash. -/
structure JPMethodMatch (Cls Py : Type) where
  /-- `m_Arguments` -/
  arguments : List (JPMatch Cls Py)
  /-- `m_Type` -/
  type : MatchType := .none
  /-- `m_IsVarIndirect` -/
  isVarIndirect : Bool := false
  /-- `m_Offset` -/
  offset : ℕ := 0
  /-- `m_Skip` -/
  skip : ℕ := 0
  /-- `m_Overload` -/
  overload : Option (JPMethod Cls) := none

namespace JPMethodMatch

variable {Cls Py : Type}

/-- The constructor `JPMethodMatch::JPMethodMatch`. -/
def ofArgs (args : List Py) : JPMethodMatch Cls Py where
  arguments := args.map fun a ↦ { object := a }

/-- The Python arguments of the call. -/
def objects (mm : JPMethodMatch Cls Py) : List Py :=
  mm.arguments.map JPMatch.object

/-- The class recorded on argument `j`. -/
def targetAt (mm : JPMethodMatch Cls Py) (j : ℕ) : Option Cls :=
  mm.arguments[j]?.bind JPMatch.target

/-- Record on argument `j` the conversion to `type`. -/
def record (mm : JPMethodMatch Cls Py) (type : Cls) (j : ℕ) : JPMethodMatch Cls Py :=
  { mm with arguments := mm.arguments.modify j fun a ↦ { a with target := some type } }

/-- `type->findJavaConversion(m_Arguments[j])`: the quality, and the argument with that
conversion recorded. -/
def inspect (conv : Conversions Cls Py) (mm : JPMethodMatch Cls Py) (type : Cls) (j : ℕ) :
    Except Fault (MatchType × JPMethodMatch Cls Py) :=
  match mm.arguments[j]? with
  | none => .error .outOfBounds
  | some a => .ok (conv.findJavaConversion type a.object, mm.record type j)

@[simp]
theorem objects_ofArgs (args : List Py) : (ofArgs args : JPMethodMatch Cls Py).objects = args := by
  simp [objects, ofArgs, Function.comp_def]

@[simp]
theorem targetAt_ofArgs (args : List Py) (j : ℕ) :
    (ofArgs args : JPMethodMatch Cls Py).targetAt j = none := by
  simp only [targetAt, ofArgs, List.getElem?_map]
  cases args[j]? <;> rfl

theorem length_arguments (mm : JPMethodMatch Cls Py) :
    mm.arguments.length = mm.objects.length := by
  simp [objects]

@[simp]
theorem objects_record (mm : JPMethodMatch Cls Py) (type : Cls) (j : ℕ) :
    (mm.record type j).objects = mm.objects := by
  refine List.ext_getElem? fun k ↦ ?_
  simp only [objects, record, List.getElem?_map, List.getElem?_modify]
  cases mm.arguments[k]? <;> by_cases h : j = k <;> simp [h]

theorem targetAt_record (mm : JPMethodMatch Cls Py) (type : Cls) (j k : ℕ) :
    (mm.record type j).targetAt k =
      if j = k ∧ k < mm.arguments.length then some type else mm.targetAt k := by
  simp only [targetAt, record, List.getElem?_modify]
  rcases h : mm.arguments[k]? with - | a
  · have : ¬ k < mm.arguments.length := by
      intro hk
      simp [List.getElem?_eq_getElem hk] at h
    simp [this]
  · obtain ⟨hk, -⟩ := List.getElem?_eq_some_iff.1 h
    by_cases hjk : j = k <;> simp [hjk, hk]

theorem inspect_of_lt (conv : Conversions Cls Py) (mm : JPMethodMatch Cls Py) (type : Cls)
    {j : ℕ} (hj : j < mm.objects.length) :
    mm.inspect conv type j =
      .ok (conv.findJavaConversion type mm.objects[j], mm.record type j) := by
  have hj' : j < mm.arguments.length := by rwa [length_arguments]
  simp only [inspect, List.getElem?_eq_getElem hj']
  simp [objects]

end JPMethodMatch

namespace JPMethod

variable {Cls Py : Type}

/-- The loop of `matchVars`, with `n` arguments left to look at from index `i` on. -/
def matchVarsLoop (conv : Conversions Cls Py) (type : Cls) :
    ℕ → ℕ → MatchType → JPMethodMatch Cls Py → Except Fault (MatchType × JPMethodMatch Cls Py)
  | 0, _, lastMatch, mm => .ok (lastMatch, mm)
  | n + 1, i, lastMatch, mm => do
    let (quality, mm) ← mm.inspect conv type i
    if quality < .implicit then
      return (.none, mm)
    matchVarsLoop conv type n (i + 1) (if quality < lastMatch then quality else lastMatch) mm

/-- `matchVars`: rate the arguments from `start` on against the component of `vartype`. -/
def matchVars (conv : Conversions Cls Py) (mm : JPMethodMatch Cls Py) (size start : ℕ)
    (vartype : Cls) : Except Fault (MatchType × JPMethodMatch Cls Py) :=
  matchVarsLoop conv (conv.getComponentType vartype) (size - start) start .exact mm

/-- The loop over the fixed parameters at the end of `matches`. -/
def matchFixed (conv : Conversions Cls Py) :
    List Cls → ℕ → JPMethodMatch Cls Py → Except Fault (JPMethodMatch Cls Py)
  | [], _, mm => .ok mm
  | type :: rest, i, mm => do
    let (ematch, mm) ← mm.inspect conv type (i + mm.offset)
    let mm := if ematch < mm.type then { mm with type := ematch } else mm
    if mm.type < .implicit then
      return mm
    matchFixed conv rest (i + 1) mm

/-- The direct attempt of `matches` on a varargs method: with as many arguments as parameters,
the last one may be the array itself. -/
def tryDirect (conv : Conversions Cls Py) (tlen len : ℕ) (type : Cls)
    (mm : JPMethodMatch Cls Py) : Except Fault (JPMethodMatch Cls Py) :=
  if len = tlen then
    -- `tlen - 1 - m_Offset` is a `size_t`: below zero it is past every vector's end
    if tlen - 1 < mm.offset then .error .outOfBounds
    else do
      let (quality, mm) ← mm.inspect conv type (tlen - 1 - mm.offset)
      return { mm with type := quality }
  else .ok mm

/-- The attempt after it: the arguments from the last parameter on are the items of the
array, of which there may be none. -/
def tryIndirect (conv : Conversions Cls Py) (size tlen len : ℕ) (type : Cls)
    (mm : JPMethodMatch Cls Py) : Except Fault (JPMethodMatch Cls Py) :=
  if mm.type < .implicit ∧ tlen ≤ len then do
    let (quality, mm) ← matchVars conv mm size (tlen - 1 + mm.offset) type
    return { mm with type := quality, isVarIndirect := true }
  else if len < tlen then
    .ok { mm with isVarIndirect := true, type := .exact }
  else
    .ok mm

/-- The varargs part of `matches`. `len` is the number of arguments that count. -/
def matchVarArgs (conv : Conversions Cls Py) (m : JPMethod Cls) (size len : ℕ)
    (mm : JPMethodMatch Cls Py) : Except Fault (JPMethodMatch Cls Py) :=
  let tlen := m.parameterTypes.length
  let mm := { mm with type := .none }
  if len < tlen - 1 then .ok mm
  else
    match m.parameterTypes.getLast? with
    | none => .error .outOfBounds
    | some type => do
      let mm ← tryDirect conv tlen len type mm
      tryIndirect conv size tlen len type mm

/-- The match record as `matches` sets it up before it looks at an argument: of the record the
caller passes in only the arguments survive. -/
def reset (m : JPMethod Cls) (mm : JPMethodMatch Cls Py) (callInstance : Bool) :
    JPMethodMatch Cls Py where
  arguments := mm.arguments
  overload := some m
  offset := if callInstance && m.isStatic then 1 else 0
  skip := if callInstance || m.isInstance then 1 else 0
  isVarIndirect := false
  type := .exact

/-- `JPMethod::matches`. The count of arguments drops by `m_Offset`, that is by one when a
static method is called through an instance; a bound call always has that argument. -/
def matchesCall (conv : Conversions Cls Py) (m : JPMethod Cls) (mm : JPMethodMatch Cls Py)
    (callInstance : Bool) : Except Fault (JPMethodMatch Cls Py) := do
  let size := mm.arguments.length
  let mm := m.reset mm callInstance
  let len := size - mm.offset
  let tlen := m.parameterTypes.length
  if m.isVarArgs then
    let mm ← matchVarArgs conv m size len mm
    if mm.type < .implicit then
      return mm
    matchFixed conv m.parameterTypes.dropLast 0 mm
  else if len ≠ tlen then
    return { mm with type := .none }
  else
    matchFixed conv m.parameterTypes 0 mm

end JPMethod

/-- A call as `PyJPMethod_call` makes it: through the class, with the argument tuple alone, or
through an instance, which it puts in front of the tuple. Constructors are called unbound. -/
inductive Call (Py : Type) where
  /-- `m_Instance` is null. -/
  | unbound (args : List Py)
  /-- Called on the instance `self`. -/
  | bound (self : Py) (args : List Py)
  deriving DecidableEq, Repr

namespace Call

variable {Py : Type}

/-- The `callInstance` flag passed down with the call. -/
def callInstance : Call Py → Bool
  | unbound _ => false
  | bound _ _ => true

/-- The argument vector passed down with the call. -/
def vargs : Call Py → List Py
  | unbound args => args
  | bound self args => self :: args

end Call

/-- What one slot of the `jvalue` vector was filled with. -/
inductive Delivered (Cls Py : Type) where
  /-- The conversion of one argument to one class. -/
  | conversion (type : Cls) (arg : Py)
  /-- A new array holding the conversions of these items to its component class. -/
  | array (component : Cls) (items : List Py)
  deriving DecidableEq, Repr

/-- The vector `v` of `jvalue`s; `none` is a slot still holding its zero. -/
abbrev JValues (Cls Py : Type) := List (Option (Delivered Cls Py))

namespace JPMethod

variable {Cls Py : Type}

/-- `v[k] = x` -/
def store (v : JValues Cls Py) (k : ℕ) (x : Delivered Cls Py) : Except Fault (JValues Cls Py) :=
  if k < v.length then .ok (v.set k (some x)) else .error .outOfBounds

/-- `m_Arguments[i].convert()` -/
def convertArgument (mm : JPMethodMatch Cls Py) (i : ℕ) : Except Fault (Delivered Cls Py) :=
  match mm.arguments[i]? with
  | none => .error .outOfBounds
  | some a =>
    match a.target with
    | none => .error .failInConversion
    | some type => .ok (.conversion type a.object)

/-- `JPArrayClass::convertToJavaVector`: a new array with the items from `start` on. -/
def convertToJavaVector (conv : Conversions Cls Py) (vartype : Cls) (args : List Py)
    (start : ℕ) : Except Fault (Delivered Cls Py) :=
  let component := conv.getComponentType vartype
  if args.length < start then .error .negativeArraySize
  else if (args.drop start).all fun a ↦ .implicit ≤ conv.findJavaConversion component a then
    .ok (.array component (args.drop start))
  else .error .unableToConvert

/-- The loop of `packArgs`, with `n` arguments left from index `i` on. -/
def packFixed (mm : JPMethodMatch Cls Py) :
    ℕ → ℕ → JValues Cls Py → Except Fault (JValues Cls Py)
  | 0, _, v => .ok v
  | n + 1, i, v => do
    let x ← convertArgument mm i
    let v ← store v (i - mm.skip) x
    packFixed mm n (i + 1) v

/-- `JPMethod::packArgs`, on the vector of `alen + 1` zeroes that `invoke` and
`invokeConstructor` allocate for it. -/
def packArgs (conv : Conversions Cls Py) (m : JPMethod Cls) (mm : JPMethodMatch Cls Py) :
    Except Fault (JValues Cls Py) := do
  let args := mm.objects
  let tlen := m.parameterTypes.length
  let v : JValues Cls Py := List.replicate (tlen + 1) none
  if mm.isVarIndirect then
    match m.parameterTypes.getLast? with
    | none => .error .outOfBounds
    | some type =>
      let tail ← convertToJavaVector conv type args (tlen - 1)
      -- `tlen - 1 - m_Skip` is a `size_t`: below zero it is past every vector's end
      if tlen - 1 < mm.skip then
        .error .outOfBounds
      else
        let v ← store v (tlen - 1 - mm.skip) tail
        packFixed mm (tlen - 1 - mm.skip) mm.skip v
  else
    packFixed mm (args.length - mm.skip) mm.skip v

end JPMethod

end JPype
