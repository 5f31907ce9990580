import JPype.Foundation.Faults
import JPype.Overload.Hiding

/-!
# Populating a class while calls fail

`getClass` and `populateMembers` of the type manager once more, where each call to reflection and
each call to the type factory may throw. An exception is not caught on the way, so a call that
returns has done what it does without faults (`Faulty.populateMembers_agrees`). One that throws
leaves the descriptors as they are by then.
-/

namespace JPype

open Foundation FaultyProgram

variable {Cls : Type} [DecidableEq Cls] (R : Reflection Cls) (faults : ℕ → Option JavaError)

/-- A call into the type manager, with the number of calls that it has made. -/
abbrev FaultyM (Cls : Type) := FaultyProgram (TypeManager Cls) JavaError

namespace Faulty

variable {α : Type}

/-- A call to reflection. -/
def reflect (a : α) : FaultyM Cls α :=
  call faults (pure a)

/-- A call to reflection that fails if there is no answer. -/
def query (answer : Option α) : FaultyM Cls α := do
  match ← reflect faults answer with
  | some a => return a
  | none => throw .linkageError

/-! ### Classes -/

section Classes

variable (getClass : Cls → FaultyM Cls (ClassDescriptor Cls))

/-- The end of the functions that create a class. -/
def cacheWrapper (cls : Cls) : FaultyM Cls (ClassDescriptor Cls) := do
  let classPtr ← call faults allocate
  let out : ClassDescriptor Cls := { classPtr }
  step (modify (·.put cls out))
  return out

/-- `createOrdinaryClass` -/
def createOrdinaryClass (cls : Cls) : FaultyM Cls (ClassDescriptor Cls) := do
  let _ ← query faults (R.getMethods cls)
  let _ ← query faults (R.getFields cls)
  let superClass ← reflect faults (R.getSuperclass cls)
  let interfaces ← reflect faults (R.getInterfaces cls)
  let _ ← (superClass.toList ++ interfaces).mapM getClass
  -- the modifiers, the functional method and the name
  reflect faults ()
  cacheWrapper faults cls

/-- `createArrayClass` -/
def createArrayClass (cls : Cls) : FaultyM Cls (ClassDescriptor Cls) := do
  let componentType ← reflect faults (R.getComponentType cls)
  let _ ← getClass componentType
  cacheWrapper faults cls

/-- `createClass` -/
def createClass (cls : Cls) : FaultyM Cls (ClassDescriptor Cls) := do
  if ← reflect faults (R.isArray cls) then createArrayClass R faults getClass cls
  else createOrdinaryClass R faults getClass cls

end Classes

/-- `getClass` -/
def getClass : ℕ → Cls → FaultyM Cls (ClassDescriptor Cls)
  | 0, _ => throw .outOfFuel
  | fuel + 1, cls => do
    match (← step get).classMap cls with
    | some ptr => return ptr
    | none => createClass R faults (getClass fuel) cls

/-! ### Members -/

/-- A turn of the loop of `createFields`. -/
def createField (fuel : ℕ) (cls : Cls) (field : Field Cls) : FaultyM Cls ℕ := do
  let type ← reflect faults field.type
  let _ ← getClass R faults fuel type
  call faults (defineField cls field)

/-- `createFields` -/
def createFields (fuel : ℕ) (cls : Cls) : FaultyM Cls Unit := do
  let declared ← query faults (R.getDeclaredFields cls)
  let fieldPtr ← (declared.filter (·.isPublic)).mapM (createField R faults fuel cls)
  step (modify (·.modifyDesc cls fun desc ↦ { desc with fields := some fieldPtr }))

/-- The loop of `createConstructors`. -/
def createConstructors (cls : Cls) : List (MethodResolution Cls) → List (Executable Cls × ℕ) →
    List ℕ → FaultyM Cls (List ℕ)
  | [], _, out => return out
  | ov :: overloads, ptrs, out => do
    let ptr ← call faults (defineMethod R cls ov.executable (precedencePtrs ptrs ov))
    createConstructors cls overloads (ptrs ++ [(ov.executable, ptr)]) (ptr :: out)

/-- `createConstructorDispatch` -/
def createConstructorDispatch (fuel : ℕ) (cls : Cls) : FaultyM Cls Unit := do
  let declared ← query faults (R.getDeclaredConstructors cls)
  let constructors := declared.filter (·.isPublic)
  if constructors.isEmpty then return ()
  else
    -- the sort asks for parameter types
    reflect faults ()
    match MethodResolution.sortMethods R fuel constructors with
    | none => throw .outOfFuel
    | some overloads =>
      let ptrs ← createConstructors R faults cls overloads [] []
      step (modify (·.modifyDesc cls fun desc ↦ { desc with constructors := some ptrs }))
      let dispatch ← call faults (defineMethodDispatch cls "<init>" ptrs true)
      step (modify (·.modifyDesc cls fun desc ↦ { desc with constructorDispatch := dispatch }))

/-- An overload that another class declares. -/
def inheritedMethod (populateMembers : Cls → FaultyM Cls Unit) (method : Executable Cls) :
    FaultyM Cls ℕ := do
  populateMembers method.declaringClass
  match (← step get).classMap method.declaringClass with
  | none => throw .nullPointerException
  | some desc =>
    match desc.getMethod method with
    | .error e => throw e
    | .ok ptr => if ptr = 0 then throw (.runtimeException "Fail") else return ptr

/-- The loop of `createMethods`. -/
def createMethods (populateMembers : Cls → FaultyM Cls Unit) (cls : Cls) :
    List (MethodResolution Cls) → List (Executable Cls × ℕ) → List ℕ → FaultyM Cls (List ℕ)
  | [], _, out => return out
  | ov :: overloads, ptrs, out => do
    if ov.executable.declaringClass ≠ cls then
      let ptr ← inheritedMethod populateMembers ov.executable
      createMethods populateMembers cls overloads (ptrs ++ [(ov.executable, ptr)]) (ptr :: out)
    else
      -- the modifiers and the annotations
      reflect faults ()
      let ptr ← call faults (defineMethod R cls ov.executable (precedencePtrs ptrs ov))
      step (storeMethod cls ov.executable ptr)
      createMethods populateMembers cls overloads (ptrs ++ [(ov.executable, ptr)]) (ptr :: out)

/-- `createMethodDispatch` -/
def createMethodDispatch (populateMembers : Cls → FaultyM Cls Unit) (fuel : ℕ) (cls : Cls)
    (key : String) (candidates : List (Executable Cls)) :
    FaultyM Cls (ℕ × List (Executable Cls)) := do
  let methods := candidates.filter (·.name = key)
  reflect faults ()
  match MethodResolution.sortMethods R fuel methods with
  | none => throw .outOfFuel
  | some overloads =>
    let overloadPtrs ← createMethods R faults populateMembers cls overloads [] []
    let methodContainer ← call faults (defineMethodDispatch cls key overloadPtrs false)
    return (methodContainer, candidates.filter (·.name ≠ key))

/-- The loop of `createMethodDispatches` over the names. -/
def dispatchLoop (populateMembers : Cls → FaultyM Cls Unit) (fuel : ℕ) (cls : Cls) :
    ℕ → List String → List (Executable Cls) → FaultyM Cls Unit
  | _, [], _ => return ()
  | i, name :: names, candidates => do
    let (ptr, candidates) ← createMethodDispatch R faults populateMembers fuel cls name candidates
    step (modify (·.modifyDesc cls fun desc ↦
      { desc with methodDispatch := desc.methodDispatch.map (·.set i ptr) }))
    dispatchLoop populateMembers fuel cls (i + 1) names candidates

/-- `createMethodDispatches` -/
def createMethodDispatches (populateMembers : Cls → FaultyM Cls Unit) (fuel : ℕ) (cls : Cls) :
    FaultyM Cls Unit := do
  let all ← query faults (R.getMethods cls)
  -- `isOverridden` looks up each method
  reflect faults ()
  let methods := filterOverridden R cls all
  let declared ← query faults (R.getDeclaredMethods cls)
  reflect faults ()
  let declaredMethods := filterOverridden R cls declared
  let resolve := methods.foldl (fun names method ↦ treeSetAdd method.name names) []
  step (modify (·.modifyDesc cls fun desc ↦
    { desc with
      capacity := some declaredMethods.length
      methodDispatch := some (List.replicate resolve.length 0) }))
  dispatchLoop R faults populateMembers fuel cls 0 resolve methods

/-- `createMembers` -/
def createMembers (populateMembers : Cls → FaultyM Cls Unit) (fuel : ℕ) (cls : Cls) :
    FaultyM Cls Unit := do
  createFields R faults fuel cls
  createConstructorDispatch R faults fuel cls
  createMethodDispatches R faults populateMembers fuel cls
  call faults (assignMembers cls)

/-- `populateMembers` -/
def populateMembers : ℕ → Cls → FaultyM Cls Unit
  | 0, _ => throw .outOfFuel
  | fuel + 1, cls => do
    match (← step get).classMap cls with
    | none => throw (.runtimeException "Class not loaded")
    | some desc =>
      if desc.fields.isSome then return ()
      else createMembers R faults (populateMembers fuel) fuel cls

/-- `populateMethod` -/
def populateMethod (fuel : ℕ) (method : Executable Cls) : FaultyM Cls Unit := do
  -- the signature
  reflect faults ()
  let _ ← (signatureClasses method).mapM (getClass R faults fuel)

/-- `createAnonymous` -/
def createAnonymous (cls : Cls) (parent : ClassDescriptor Cls) : FaultyM Cls ℕ :=
  if parent.anonymous ≠ 0 then return parent.anonymous
  else do
    -- the canonical name
    reflect faults ()
    let ptr ← call faults allocate
    step (modify (·.modifyDesc cls fun desc ↦ { desc with anonymous := ptr }))
    return ptr

/-- `findClass` -/
def findClass (fuel : ℕ) (cls : Cls) : FaultyM Cls ℕ := do
  if ← reflect faults (isLambda R cls) then
    match ← reflect faults (R.getInterfaces cls) with
    | [] => throw .arrayIndexOutOfBounds
    | interface :: _ => return (← getClass R faults fuel interface).classPtr
  else if ← reflect faults (R.isAnonymousClass cls) then
    match ← reflect faults (R.getInterfaces cls) with
    | [_] =>
      match ← reflect faults (R.getInterfaces cls) with
      | [] => throw .arrayIndexOutOfBounds
      | interface :: _ => return (← getClass R faults fuel interface).classPtr
    | _ =>
      match ← reflect faults (R.getSuperclass cls) with
      | none => throw .nullPointerException
      | some superclass =>
        createAnonymous faults superclass (← getClass R faults fuel superclass)
  else return (← getClass R faults fuel cls).classPtr

/-! ### Agreement with the calls that do not fail -/

section Agreement

variable {R faults}

omit [DecidableEq Cls] in
/-- An answer of reflection is used as it is. -/
theorem query_agrees {β : Type} {answer : Option α} {f : α → FaultyM Cls β} {y : ManagerM Cls β}
    (h : ∀ a, answer = some a → Agrees (f a) y) : Agrees (query faults answer >>= f) y := by
  rw [query, bind_assoc]
  refine .skip ?_
  cases answer with
  | none => exact .throw _ _
  | some a => exact h a rfl

/-- The wrapper of a class is stored as without faults. -/
theorem cacheWrapper_agrees (cls : Cls) :
    Agrees (cacheWrapper faults cls) (JPype.cacheWrapper cls) :=
  (Agrees.call _ _).bind fun _ ↦ (Agrees.step _).bind fun _ ↦ .pure _

/-- A class is looked up, or created after the classes that it needs. -/
theorem getClass_agrees (fuel : ℕ) :
    ∀ cls, Agrees (getClass R faults fuel cls) (JPype.getClass R fuel cls) := by
  induction fuel with
  | zero => exact fun cls ↦ .throw _ _
  | succ fuel ih =>
    intro cls
    refine (Agrees.step get).bind fun s ↦ ?_
    cases s.classMap cls with
    | some desc => exact .pure desc
    | none =>
      refine .skip ?_
      rw [JPype.createClass]
      split_ifs with harray
      · exact .skip ((ih _).bind fun _ ↦ cacheWrapper_agrees cls)
      · refine query_agrees fun ms hms ↦ query_agrees fun fs hfs ↦ .skip (.skip ?_)
        rw [JPype.createOrdinaryClass, hms, hfs]
        exact (Agrees.mapM ih _).bind fun _ ↦ .skip (cacheWrapper_agrees cls)

/-- The fields are created in the order of reflection. -/
theorem createFields_agrees (fuel : ℕ) (cls : Cls) :
    Agrees (createFields R faults fuel cls) (JPype.createFields R fuel cls) := by
  refine query_agrees fun declared hdeclared ↦ ?_
  rw [JPype.createFields, hdeclared]
  refine (Agrees.mapM (fun field ↦ ?_) _).bind fun fieldPtr ↦ .step _
  exact .skip ((getClass_agrees fuel field.type).bind fun _ ↦ .call _ _)

/-- The constructors are defined one after the other. -/
theorem createConstructors_agrees (cls : Cls) (overloads : List (MethodResolution Cls)) :
    ∀ ptrs out, Agrees (createConstructors R faults cls overloads ptrs out)
      (JPype.createConstructors R cls overloads ptrs out) := by
  induction overloads with
  | nil => exact fun ptrs out ↦ .pure out
  | cons ov overloads ih => exact fun ptrs out ↦ (Agrees.call _ _).bind fun ptr ↦ ih _ _

/-- The dispatch of the constructors is created if there are any. -/
theorem createConstructorDispatch_agrees (fuel : ℕ) (cls : Cls) :
    Agrees (createConstructorDispatch R faults fuel cls)
      (JPype.createConstructorDispatch R fuel cls) := by
  refine query_agrees fun declared hdeclared ↦ ?_
  rw [JPype.createConstructorDispatch, hdeclared]
  dsimp only
  split_ifs with hempty
  · exact .pure ()
  · refine .skip ?_
    cases MethodResolution.sortMethods R fuel (declared.filter (·.isPublic)) with
    | none => exact .throw _ _
    | some overloads =>
      refine (createConstructors_agrees cls overloads [] []).bind fun ptrs ↦ ?_
      exact (Agrees.step _).bind fun _ ↦ (Agrees.call _ _).bind fun dispatch ↦ .step _

variable {populate : Cls → FaultyM Cls Unit} {populate' : Cls → ManagerM Cls Unit}

/-- A method of a superclass is that of the class which declares it, once it has its members. -/
theorem inheritedMethod_agrees (h : ∀ cls, Agrees (populate cls) (populate' cls))
    (method : Executable Cls) :
    Agrees (inheritedMethod populate method) (JPype.inheritedMethod populate' method) := by
  refine (h _).bind fun _ ↦ (Agrees.step get).bind fun s ↦ ?_
  cases s.classMap method.declaringClass with
  | none => exact .throw _ _
  | some desc =>
    dsimp only
    cases desc.getMethod method with
    | error e => exact .throw _ _
    | ok ptr =>
      dsimp only
      split_ifs
      · exact .throw _ _
      · exact .pure ptr

/-- The methods of one name are defined one after the other, or are those of a superclass. -/
theorem createMethods_agrees (h : ∀ cls, Agrees (populate cls) (populate' cls)) (cls : Cls)
    (overloads : List (MethodResolution Cls)) :
    ∀ ptrs out, Agrees (createMethods R faults populate cls overloads ptrs out)
      (JPype.createMethods R populate' cls overloads ptrs out) := by
  induction overloads with
  | nil => exact fun ptrs out ↦ .pure out
  | cons ov overloads ih =>
    intro ptrs out
    rw [createMethods, JPype.createMethods]
    split_ifs
    · exact (inheritedMethod_agrees h _).bind fun ptr ↦ ih _ _
    · exact .skip ((Agrees.call _ _).bind fun ptr ↦ (Agrees.step _).bind fun _ ↦ ih _ _)

/-- One dispatch is made for each name, in order. -/
theorem dispatchLoop_agrees (h : ∀ cls, Agrees (populate cls) (populate' cls)) (fuel : ℕ)
    (cls : Cls) (names : List String) :
    ∀ i candidates, Agrees (dispatchLoop R faults populate fuel cls i names candidates)
      (JPype.dispatchLoop R populate' fuel cls i names candidates) := by
  induction names with
  | nil => exact fun i candidates ↦ .pure ()
  | cons name names ih =>
    intro i candidates
    have hdispatch : Agrees (createMethodDispatch R faults populate fuel cls name candidates)
        (JPype.createMethodDispatch R populate' fuel cls name candidates) := by
      refine .skip ?_
      rw [JPype.createMethodDispatch]
      cases MethodResolution.sortMethods R fuel (candidates.filter (·.name = name)) with
      | none => exact .throw _ _
      | some overloads =>
        refine (createMethods_agrees h cls overloads [] []).bind fun ptrs ↦ ?_
        exact (Agrees.call _ _).bind fun container ↦ .pure _
    exact hdispatch.bind fun dispatch ↦ (Agrees.step _).bind fun _ ↦ ih _ _

/-- The dispatches of all names are created. -/
theorem createMethodDispatches_agrees (h : ∀ cls, Agrees (populate cls) (populate' cls))
    (fuel : ℕ) (cls : Cls) :
    Agrees (createMethodDispatches R faults populate fuel cls)
      (JPype.createMethodDispatches R populate' fuel cls) := by
  refine query_agrees fun all hall ↦ .skip (query_agrees fun declared hdeclared ↦ .skip ?_)
  rw [JPype.createMethodDispatches, hall, hdeclared]
  exact (Agrees.step _).bind fun _ ↦ dispatchLoop_agrees h fuel cls _ _ _

/-- A call that returns has not failed anywhere. -/
theorem populateMembers_agrees (fuel : ℕ) :
    ∀ cls, Agrees (populateMembers R faults fuel cls) (JPype.populateMembers R fuel cls) := by
  induction fuel with
  | zero => exact fun cls ↦ .throw _ _
  | succ fuel ih =>
    intro cls
    refine (Agrees.step get).bind fun s ↦ ?_
    cases s.classMap cls with
    | none => exact .throw _ _
    | some desc =>
      dsimp only
      split_ifs
      · exact .pure ()
      · refine (createFields_agrees fuel cls).bind fun _ ↦ ?_
        refine (createConstructorDispatch_agrees fuel cls).bind fun _ ↦ ?_
        exact (createMethodDispatches_agrees ih fuel cls).bind fun _ ↦ .call _ _

end Agreement

end Faulty

end JPype
