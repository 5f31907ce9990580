import JPype.Foundation.Hoare
import JPype.Foundation.Runs
import JPype.Overload.Dispatch
import JPype.Overload.MethodResolution
import JPype.Text.Unicode
import Mathlib.Data.List.Infix
import Mathlib.Logic.Function.Basic

/-!
# Populating the members of a class

`org.jpype.manager.TypeManager`, which makes the native objects for the members of a Java class:
`getClass` with `createClass`, and `populateMembers` with `createMembers`, `createFields`,
`createConstructorDispatch`, `createMethodDispatches` and `createMethods`. The native objects live
in the state next to the class map; each has an address. An inherited overload is taken from the
class that declares it, which is populated first if need be. An object of a lambda or of an
anonymous class is given the wrapper of an interface, or one that all anonymous classes below a
superclass share.

An exception keeps what was done before it. Fuel bounds the depth of the recursion and the turns
of the sort; `JavaError.outOfFuel` stands for a call that is still running.
-/

namespace JPype

open Foundation

/-- How a call into Java ends when it does not return. -/
inductive JavaError where
  | runtimeException (message : String)
  | nullPointerException
  | arrayIndexOutOfBounds
  | linkageError
  /-- Native code follows an address that is none of its objects. -/
  | danglingPointer
  | outOfFuel
  deriving DecidableEq

/-! ### The state -/

/-- `ClassDescriptor`. The arrays `methods` and `methodIndex` have `capacity` places, of which the
first `methodCounter` are filled, with `defined`. -/
structure ClassDescriptor (Cls : Type) where
  classPtr : ℕ
  constructorDispatch : ℕ := 0
  constructors : Option (List ℕ) := none
  methodDispatch : Option (List ℕ) := none
  /-- The length of the arrays; `none` while they are null. -/
  capacity : Option ℕ := none
  defined : List (Executable Cls × ℕ) := []
  fields : Option (List ℕ) := none
  /-- The wrapper of the anonymous classes below the class, or null. -/
  anonymous : ℕ := 0

/-- What `assignMembers` tells a `JPClass`. -/
structure ClassMembers where
  classPtr : ℕ
  constructorDispatch : ℕ
  methodDispatch : List ℕ
  fields : List ℕ

/-- `TypeManager`, and the native objects that its type factory has made. -/
structure TypeManager (Cls : Type) where
  classMap : Cls → Option (ClassDescriptor Cls)
  /-- The address of the next native object. -/
  nextPtr : ℕ
  /-- The `JPMethod` objects, each with the executable it wraps (`m_Method`). -/
  methods : List (Executable Cls × JPMethod Cls)
  /-- The `JPField` objects, each with its address, its class and the field that it wraps. -/
  fieldObjects : List (ℕ × Cls × Field Cls)
  /-- The `JPMethodDispatch` objects, each with its address. -/
  dispatches : List (ℕ × JPMethodDispatch Cls)
  /-- The members that the `JPClass` objects have been assigned. -/
  assigned : List ClassMembers

/-- A call into the type manager. -/
abbrev ManagerM (Cls : Type) := Program (TypeManager Cls) JavaError

variable {Cls : Type} [DecidableEq Cls] (R : Reflection Cls)

/-- `ClassDescriptor.getMethod`: the arrays are searched to their end, so a place that is not
filled yet is found null. -/
def ClassDescriptor.getMethod (desc : ClassDescriptor Cls) (requestedMethod : Executable Cls) :
    Except JavaError ℕ :=
  match desc.capacity with
  | none => .error .nullPointerException
  | some length =>
    match desc.defined.lookup requestedMethod with
    | some ptr => .ok ptr
    | none => if desc.defined.length < length then .error .nullPointerException else .ok 0

namespace TypeManager

/-- A new type manager. -/
def new : TypeManager Cls where
  classMap _ := none
  nextPtr := 1
  methods := []
  fieldObjects := []
  dispatches := []
  assigned := []

/-- `classMap.put` -/
def put (s : TypeManager Cls) (cls : Cls) (desc : ClassDescriptor Cls) : TypeManager Cls :=
  { s with classMap := Function.update s.classMap cls (some desc) }

/-- An update of the descriptor of a class. -/
def modifyDesc (s : TypeManager Cls) (cls : Cls)
    (f : ClassDescriptor Cls → ClassDescriptor Cls) : TypeManager Cls :=
  { s with classMap := Function.update s.classMap cls ((s.classMap cls).map f) }

/-- The `JPMethod` at an address. -/
def methodAt (s : TypeManager Cls) (ptr : ℕ) : Option (JPMethod Cls) :=
  (s.methods.find? fun e ↦ e.2.ptr = ptr).map (·.2)

end TypeManager

/-! ### The type factory -/

/-- The address of a new native object. -/
def allocate : ManagerM Cls ℕ :=
  modifyGet fun s ↦ (s.nextPtr, { s with nextPtr := s.nextPtr + 1 })

/-- `defineField`: a `JPField` for a field of `cls`. -/
def defineField (cls : Cls) (field : Field Cls) : ManagerM Cls ℕ :=
  modifyGet fun s ↦
    (s.nextPtr,
      { s with
        nextPtr := s.nextPtr + 1
        fieldObjects := s.fieldObjects ++ [(s.nextPtr, cls, field)] })

/-- `defineMethod`: a `JPMethod` for an executable of `cls`. -/
def defineMethod (cls : Cls) (executable : Executable Cls) (precedencePtrs : List ℕ) :
    ManagerM Cls ℕ :=
  modifyGet fun s ↦
    let method : JPMethod Cls :=
      { ptr := s.nextPtr
        name := R.toString executable
        declaringClass := cls
        kind := executable.kind
        isVarArgs := executable.isVarArgs
        javaParameters := executable.parameterTypes
        moreSpecificOverloads := precedencePtrs
        javaParameters_ne_nil := executable.parameterTypes_ne_nil }
    (s.nextPtr,
      { s with nextPtr := s.nextPtr + 1, methods := s.methods ++ [(executable, method)] })

/-- `defineMethodDispatch`: a `JPMethodDispatch` for the methods at these addresses. -/
def defineMethodDispatch (cls : Cls) (name : String) (overloadPtrs : List ℕ)
    (isConstructor : Bool) : ManagerM Cls ℕ := do
  let s ← get
  match overloadPtrs.mapM s.methodAt with
  | none => throw .danglingPointer
  | some overloads =>
    modifyGet fun s ↦
      (s.nextPtr,
        { s with
          nextPtr := s.nextPtr + 1
          dispatches := s.dispatches ++
            [(s.nextPtr, { name, declaringClass := cls, overloads, isConstructor })] })

/-! ### Classes -/

section Classes

variable (getClass : Cls → ManagerM Cls (ClassDescriptor Cls))

/-- The end of the functions that create a class: the native object, and its descriptor in the
class map. -/
def cacheWrapper (cls : Cls) : ManagerM Cls (ClassDescriptor Cls) := do
  let classPtr ← allocate
  let out : ClassDescriptor Cls := { classPtr }
  modify (·.put cls out)
  return out

/-- `createOrdinaryClass`: the superclass comes before the interfaces. -/
def createOrdinaryClass (cls : Cls) : ManagerM Cls (ClassDescriptor Cls) :=
  if (R.getMethods cls).isNone || (R.getFields cls).isNone then throw .linkageError
  else do
    let _ ← ((R.getSuperclass cls).toList ++ R.getInterfaces cls).mapM getClass
    cacheWrapper cls

/-- `createArrayClass` -/
def createArrayClass (cls : Cls) : ManagerM Cls (ClassDescriptor Cls) := do
  let _ ← getClass (R.getComponentType cls)
  cacheWrapper cls

/-- `createClass` -/
def createClass (cls : Cls) : ManagerM Cls (ClassDescriptor Cls) :=
  if R.isArray cls then createArrayClass R getClass cls else createOrdinaryClass R getClass cls

end Classes

/-- `getClass` -/
def getClass : ℕ → Cls → ManagerM Cls (ClassDescriptor Cls)
  | 0, _ => throw .outOfFuel
  | fuel + 1, cls => do
    match (← get).classMap cls with
    | some ptr => return ptr
    | none => createClass R (getClass fuel) cls

/-- `createPrimitive` -/
def createPrimitive (fuel : ℕ) (cls boxed : Cls) : ManagerM Cls Unit := do
  let _ ← getClass R fuel boxed
  let _ ← cacheWrapper cls

/-- `init` -/
def init (fuel : ℕ) : ManagerM Cls Unit := do
  let _ ← createClass R (getClass R fuel) (R.literal "Object")
  let _ ← (["Class", "Number", "CharSequence", "Throwable", "Void", "Boolean", "Byte",
    "Character", "Short", "Integer", "Long", "Float", "Double", "String", "JPypeProxy", "Method",
    "Field"].map R.literal).mapM (createClass R (getClass R fuel))
  createPrimitive R fuel R.voidTYPE (R.literal "Void")
  createPrimitive R fuel (R.TYPE .boolean) (R.box .boolean)
  createPrimitive R fuel (R.TYPE .byte) (R.box .byte)
  createPrimitive R fuel (R.TYPE .char) (R.box .char)
  createPrimitive R fuel (R.TYPE .short) (R.box .short)
  createPrimitive R fuel (R.TYPE .int) (R.box .int)
  createPrimitive R fuel (R.TYPE .long) (R.box .long)
  createPrimitive R fuel (R.TYPE .float) (R.box .float)
  createPrimitive R fuel (R.TYPE .double) (R.box .double)

/-! ### Members -/

/-- `isOverridden` -/
def isOverridden (cls : Cls) (method : Executable Cls) : Bool :=
  match R.getMethod cls method.name method.parameterTypes with
  | none => false
  | some found => method ≠ found

/-- `filterOverridden` -/
def filterOverridden (cls : Cls) (methods : List (Executable Cls)) : List (Executable Cls) :=
  methods.filter fun method ↦ method.isPublic && !isOverridden R cls method

/-- `TreeSet.add`: names in the order of `String.compareTo`, which compares UTF-16 code units. -/
def treeSetAdd (name : String) : List String → List String
  | [] => [name]
  | n :: names =>
    if name = n then n :: names
    else if codeUnits name < codeUnits n then name :: n :: names
    else n :: treeSetAdd name names
where
  /-- The code units of a string. -/
  codeUnits (name : String) : List ℕ := (Unicode.utf16 name.toList).map UInt16.toNat

/-- `createFields` -/
def createFields (fuel : ℕ) (cls : Cls) : ManagerM Cls Unit := do
  match R.getDeclaredFields cls with
  | none => throw .linkageError
  | some declared =>
    let fieldPtr ← (declared.filter (·.isPublic)).mapM fun field ↦ do
      let _ ← getClass R fuel field.type
      defineField cls field
    modify (·.modifyDesc cls fun desc ↦ { desc with fields := some fieldPtr })

/-- The addresses of the children of an overload; `ptr` is zero until it is set. The executables of
a class differ, so that each has one address. -/
def precedencePtrs (ptrs : List (Executable Cls × ℕ)) (ov : MethodResolution Cls) : List ℕ :=
  ov.children.map fun ch ↦ (ptrs.lookup ch).getD 0

/-- The loop of `createConstructors`: `ptrs` has the `ptr` of the overloads so far, and `out` the
end of the array that is filled from its end. -/
def createConstructors (cls : Cls) : List (MethodResolution Cls) → List (Executable Cls × ℕ) →
    List ℕ → ManagerM Cls (List ℕ)
  | [], _, out => return out
  | ov :: overloads, ptrs, out => do
    let ptr ← defineMethod R cls ov.executable (precedencePtrs ptrs ov)
    createConstructors cls overloads (ptrs ++ [(ov.executable, ptr)]) (ptr :: out)

/-- `createConstructorDispatch` -/
def createConstructorDispatch (fuel : ℕ) (cls : Cls) : ManagerM Cls Unit := do
  match R.getDeclaredConstructors cls with
  | none => throw .linkageError
  | some declared =>
    let constructors := declared.filter (·.isPublic)
    if constructors.isEmpty then return ()
    else
      match MethodResolution.sortMethods R fuel constructors with
      | none => throw .outOfFuel
      | some overloads =>
        let ptrs ← createConstructors R cls overloads [] []
        modify (·.modifyDesc cls fun desc ↦ { desc with constructors := some ptrs })
        let dispatch ← defineMethodDispatch cls "<init>" ptrs true
        modify (·.modifyDesc cls fun desc ↦ { desc with constructorDispatch := dispatch })

/-- An overload that another class declares. -/
def inheritedMethod (populateMembers : Cls → ManagerM Cls Unit) (method : Executable Cls) :
    ManagerM Cls ℕ := do
  populateMembers method.declaringClass
  match (← get).classMap method.declaringClass with
  | none => throw .nullPointerException
  | some desc =>
    match desc.getMethod method with
    | .error e => throw e
    | .ok ptr => if ptr = 0 then throw (.runtimeException "Fail") else return ptr

/-- The two array stores at the end of the loop of `createMethods`. -/
def storeMethod (cls : Cls) (method : Executable Cls) (ptr : ℕ) : ManagerM Cls Unit := do
  match (← get).classMap cls with
  | none => throw .nullPointerException
  | some desc =>
    match desc.capacity with
    | none => throw .nullPointerException
    | some length =>
      if desc.defined.length < length then
        modify (·.modifyDesc cls fun desc ↦
          { desc with defined := desc.defined ++ [(method, ptr)] })
      else throw .arrayIndexOutOfBounds

/-- The loop of `createMethods`, with the accumulators of `createConstructors`. -/
def createMethods (populateMembers : Cls → ManagerM Cls Unit) (cls : Cls) :
    List (MethodResolution Cls) → List (Executable Cls × ℕ) → List ℕ → ManagerM Cls (List ℕ)
  | [], _, out => return out
  | ov :: overloads, ptrs, out => do
    if ov.executable.declaringClass ≠ cls then
      let ptr ← inheritedMethod populateMembers ov.executable
      createMethods populateMembers cls overloads (ptrs ++ [(ov.executable, ptr)]) (ptr :: out)
    else
      let ptr ← defineMethod R cls ov.executable (precedencePtrs ptrs ov)
      storeMethod cls ov.executable ptr
      createMethods populateMembers cls overloads (ptrs ++ [(ov.executable, ptr)]) (ptr :: out)

/-- `createMethodDispatch`, which takes the methods of this name out of `candidates`. -/
def createMethodDispatch (populateMembers : Cls → ManagerM Cls Unit) (fuel : ℕ) (cls : Cls)
    (key : String) (candidates : List (Executable Cls)) :
    ManagerM Cls (ℕ × List (Executable Cls)) := do
  let methods := candidates.filter (·.name = key)
  match MethodResolution.sortMethods R fuel methods with
  | none => throw .outOfFuel
  | some overloads =>
    let overloadPtrs ← createMethods R populateMembers cls overloads [] []
    let methodContainer ← defineMethodDispatch cls key overloadPtrs false
    return (methodContainer, candidates.filter (·.name ≠ key))

/-- The loop of `createMethodDispatches` over the names. -/
def dispatchLoop (populateMembers : Cls → ManagerM Cls Unit) (fuel : ℕ) (cls : Cls) :
    ℕ → List String → List (Executable Cls) → ManagerM Cls Unit
  | _, [], _ => return ()
  | i, name :: names, candidates => do
    let (ptr, candidates) ← createMethodDispatch R populateMembers fuel cls name candidates
    modify (·.modifyDesc cls fun desc ↦
      { desc with methodDispatch := desc.methodDispatch.map (·.set i ptr) })
    dispatchLoop populateMembers fuel cls (i + 1) names candidates

/-- `createMethodDispatches` -/
def createMethodDispatches (populateMembers : Cls → ManagerM Cls Unit) (fuel : ℕ) (cls : Cls) :
    ManagerM Cls Unit := do
  match R.getMethods cls, R.getDeclaredMethods cls with
  | some all, some declared =>
    let methods := filterOverridden R cls all
    let declaredMethods := filterOverridden R cls declared
    let resolve := methods.foldl (fun names method ↦ treeSetAdd method.name names) []
    modify (·.modifyDesc cls fun desc ↦
      { desc with
        capacity := some declaredMethods.length
        methodDispatch := some (List.replicate resolve.length 0) })
    dispatchLoop R populateMembers fuel cls 0 resolve methods
  | _, _ => throw .linkageError

/-- `assignMembers`; the arrays it is given are not null by then. -/
def assignMembers (cls : Cls) : ManagerM Cls Unit :=
  modify fun s ↦
    match s.classMap cls with
    | none => s
    | some desc =>
      { s with
        assigned := s.assigned ++
          [{ classPtr := desc.classPtr
             constructorDispatch := desc.constructorDispatch
             methodDispatch := desc.methodDispatch.getD []
             fields := desc.fields.getD [] }] }

/-- `createMembers` -/
def createMembers (populateMembers : Cls → ManagerM Cls Unit) (fuel : ℕ) (cls : Cls) :
    ManagerM Cls Unit := do
  createFields R fuel cls
  createConstructorDispatch R fuel cls
  createMethodDispatches R populateMembers fuel cls
  assignMembers cls

/-- `populateMembers` -/
def populateMembers : ℕ → Cls → ManagerM Cls Unit
  | 0, _ => throw .outOfFuel
  | fuel + 1, cls => do
    match (← get).classMap cls with
    | none => throw (.runtimeException "Class not loaded")
    | some desc =>
      if desc.fields.isSome then return ()
      else createMembers R (populateMembers fuel) fuel cls

/-! ### Runs -/

/-- `createAnonymous`: the wrapper is made once, and kept in the descriptor of the parent. -/
def createAnonymous (cls : Cls) (parent : ClassDescriptor Cls) : ManagerM Cls ℕ :=
  if parent.anonymous ≠ 0 then return parent.anonymous
  else do
    let ptr ← allocate
    modify (·.modifyDesc cls fun desc ↦ { desc with anonymous := ptr })
    return ptr

/-- `cls.isSynthetic() && cls.getSimpleName().contains("$Lambda$")` -/
def isLambda (cls : Cls) : Bool :=
  R.isSynthetic cls && decide ("$Lambda$".toList <:+: (R.getSimpleName cls).toList)

/-- `findClass`. A lambda has the wrapper of its interface, and so has an anonymous class with
one. -/
def findClass (fuel : ℕ) (cls : Cls) : ManagerM Cls ℕ := do
  if isLambda R cls then
    match R.getInterfaces cls with
    | [] => throw .arrayIndexOutOfBounds
    | interface :: _ => return (← getClass R fuel interface).classPtr
  else if R.isAnonymousClass cls then
    match R.getInterfaces cls, R.getSuperclass cls with
    | [interface], _ => return (← getClass R fuel interface).classPtr
    -- `getClass(null)` is null
    | _, none => throw .nullPointerException
    | _, some superclass => createAnonymous superclass (← getClass R fuel superclass)
  else return (← getClass R fuel cls).classPtr

/-- The classes that `populateMethod` asks for, in this order: of the result, of the object that a
method is called on, and of the parameters. -/
def signatureClasses (method : Executable Cls) : List Cls :=
  match method.kind with
  | .constructor => method.parameterTypes
  | .staticMethod => method.returnType :: method.parameterTypes
  | .instanceMethod => method.returnType :: method.declaringClass :: method.parameterTypes

/-- `populateMethod`, which tells a `JPMethod` the wrappers of these classes. What goes wrong when
it is told is caught. -/
def populateMethod (fuel : ℕ) (method : Executable Cls) : ManagerM Cls Unit := do
  let _ ← (signatureClasses method).mapM (getClass R fuel)

/-- What native code asks of the type manager. -/
inductive ManagerCall (Cls : Type) where
  | findClass (cls : Cls)
  | populateMethod (method : Executable Cls)
  | populateMembers (cls : Cls)

/-- The state after a call, however it ends. A call that is still running leaves none to go on
from. -/
def settle (call : ManagerM Cls Unit) (s : TypeManager Cls) : TypeManager Cls :=
  match call.exec s with
  | (.error .outOfFuel, _) => s
  | (_, s') => s'

/-- A call with its fuel. -/
def serve (s : TypeManager Cls) : ℕ × ManagerCall Cls → TypeManager Cls
  | (fuel, .findClass cls) => settle (do let _ ← findClass R fuel cls) s
  | (fuel, .populateMethod method) => settle (populateMethod R fuel method) s
  | (fuel, .populateMembers cls) => settle (populateMembers R fuel cls) s

/-- The type manager after `init`. -/
def started (fuel : ℕ) : TypeManager Cls :=
  ((init R fuel).exec TypeManager.new).2

end JPype
