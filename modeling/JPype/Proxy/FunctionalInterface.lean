import JPype.Overload.Match
import JPype.Foundation.Agreement

/-!
# Python callables as functional interfaces

A Python callable is converted to a functional interface when it can be called with as many
arguments as the method of the interface has parameters. `JPConversionFunctional::matches` reads
this off the code object; Python decides it when the call is bound, one parameter after the other
(`PyFunction.bind`).

The arithmetic is right, for functions and for bound methods (`window_eq_implicit_iff`). What is
not checked is that a bound method has a function under it: the code object of anything else is a
null pointer, which is dereferenced. So matching agrees with binding exactly on the other callables
(`agreesWithBinding_iff`).
-/

namespace JPype

/-! ### The unimplemented method of an interface -/

/-- A method of an interface, as reflection shows it. -/
structure InterfaceMethod (Cls : Type) where
  name : String
  parameterTypes : List Cls
  declaringClass : Cls
  isAbstract : Bool

namespace InterfaceMethod

variable {Cls : Type}

/-- `Method.getParameterCount` -/
def getParameterCount (m : InterfaceMethod Cls) : ℕ :=
  m.parameterTypes.length

/-- What two methods have in common if one overrides the other. -/
def signature (m : InterfaceMethod Cls) : String × List Cls :=
  (m.name, m.parameterTypes)

/-- `JPypeUtilities.equals` -/
def equals [DecidableEq Cls] (a b : InterfaceMethod Cls) : Bool :=
  if a.getParameterCount ≠ b.getParameterCount then false
  else if a.name ≠ b.name then false
  else a.parameterTypes = b.parameterTypes

theorem equals_iff [DecidableEq Cls] {a b : InterfaceMethod Cls} :
    a.equals b = true ↔ a.signature = b.signature := by
  rw [signature, signature, Prod.mk.injEq, equals]
  split_ifs with hcount hname
  · refine iff_of_false (by decide) fun h ↦ hcount ?_
    rw [getParameterCount, h.2, getParameterCount]
  · exact iff_of_false (by decide) fun h ↦ hname h.1
  · rw [not_not] at hname
    rw [decide_eq_true_iff, and_iff_right hname]

theorem getParameterCount_eq {a b : InterfaceMethod Cls} (h : a.signature = b.signature) :
    a.getParameterCount = b.getParameterCount :=
  congrArg (fun s : String × List Cls ↦ s.2.length) h

end InterfaceMethod

/-- `java.lang.Class`, as far as it is asked whether it is a functional interface. -/
structure InterfaceReflection (Cls : Type) where
  isInterface : Cls → Bool
  isAnnotation : Cls → Bool
  isSealed : Cls → Bool
  /-- All public methods, inherited ones included. -/
  getMethods : Cls → List (InterfaceMethod Cls)
  /-- `OBJECT_METHODS`: the public methods of `Object` that are not final. -/
  objectMethods : List (InterfaceMethod Cls)

namespace InterfaceReflection

variable {Cls : Type} [DecidableEq Cls] (java : InterfaceReflection Cls)

/-- `JPypeUtilities.isObjectMethodOverride` -/
def isObjectMethodOverride (m : InterfaceMethod Cls) : Bool :=
  java.objectMethods.any m.equals

/-- The loop of `getFunctionalInterfaceMethod` over the methods of `cls`. -/
def functionalMethod (cls : Cls) :
    List (InterfaceMethod Cls) → Option (InterfaceMethod Cls) → Option (InterfaceMethod Cls)
  | [], result => result
  | m :: ms, result =>
    if m.isAbstract then
      if java.isObjectMethodOverride m then functionalMethod cls ms result
      else
        match result with
        | none => functionalMethod cls ms (some m)
        | some r =>
          if !m.equals r then none
          else functionalMethod cls ms (some (if cls = m.declaringClass then m else r))
    else functionalMethod cls ms result

/-- `JPypeUtilities.getFunctionalInterfaceMethod` -/
def getFunctionalInterfaceMethod (cls : Cls) : Option (InterfaceMethod Cls) :=
  if !java.isInterface cls || java.isAnnotation cls || java.isSealed cls then none
  else java.functionalMethod cls (java.getMethods cls) none

/-- `TypeManager.interfaceParameterCount`, with the count that the constructor of
`ClassDescriptor` keeps. -/
def interfaceParameterCount (cls : Cls) : ℤ :=
  match java.getFunctionalInterfaceMethod cls with
  | some m => m.getParameterCount
  | none => -1

/-- A method that an implementation of its interface has to provide. -/
def Unimplemented (m : InterfaceMethod Cls) : Prop :=
  m.isAbstract = true ∧ java.isObjectMethodOverride m = false

instance : DecidablePred java.Unimplemented := fun _ ↦
  inferInstanceAs (Decidable (_ ∧ _))

/-- A functional interface: all the methods to implement are one method. -/
structure IsFunctional (cls : Cls) : Prop where
  isInterface : java.isInterface cls = true
  not_isAnnotation : java.isAnnotation cls = false
  not_isSealed : java.isSealed cls = false
  exists_unimplemented : ∃ m ∈ java.getMethods cls, java.Unimplemented m
  signature_eq : ∀ m₁ ∈ java.getMethods cls, ∀ m₂ ∈ java.getMethods cls, java.Unimplemented m₁ →
    java.Unimplemented m₂ → m₁.signature = m₂.signature

variable {java} {cls : Cls} {m r : InterfaceMethod Cls} {ms : List (InterfaceMethod Cls)}

section Loop

attribute [local simp] functionalMethod

theorem functionalMethod_skip (h : ¬ java.Unimplemented m) (result : Option (InterfaceMethod Cls)) :
    java.functionalMethod cls (m :: ms) result = java.functionalMethod cls ms result := by
  rw [Unimplemented, not_and, Bool.not_eq_false] at h
  by_cases habstract : m.isAbstract = true
  · simp [habstract, h habstract]
  · simp [habstract]

/-- The first method to implement becomes the result. -/
theorem functionalMethod_first (h : java.Unimplemented m) :
    java.functionalMethod cls (m :: ms) none = java.functionalMethod cls ms (some m) := by
  simp [h.1, h.2]

/-- A further one is the same method, and may take its place. -/
theorem functionalMethod_next (h : java.Unimplemented m) (heq : m.signature = r.signature) :
    java.functionalMethod cls (m :: ms) (some r) =
      java.functionalMethod cls ms (some (if cls = m.declaringClass then m else r)) := by
  simp [h.1, h.2, InterfaceMethod.equals_iff.2 heq]

/-- Another method to implement ends the loop. -/
theorem functionalMethod_differs (h : java.Unimplemented m) (hne : m.signature ≠ r.signature) :
    java.functionalMethod cls (m :: ms) (some r) = none := by
  have heq : m.equals r = false := by
    rw [← Bool.not_eq_true, InterfaceMethod.equals_iff]
    exact hne
  simp [h.1, h.2, heq]

end Loop

/-- With a result, the loop succeeds exactly if the methods to implement are all the same. -/
theorem functionalMethod_some (java : InterfaceReflection Cls) (cls : Cls)
    (ms : List (InterfaceMethod Cls)) (r : InterfaceMethod Cls) :
    (java.functionalMethod cls ms (some r)).map InterfaceMethod.signature = some r.signature ∧
        (∀ m ∈ ms, java.Unimplemented m → m.signature = r.signature) ∨
      java.functionalMethod cls ms (some r) = none ∧
        ∃ m ∈ ms, java.Unimplemented m ∧ m.signature ≠ r.signature := by
  induction ms generalizing r with
  | nil => exact .inl ⟨rfl, List.forall_mem_nil _⟩
  | cons m ms ih =>
    simp only [List.forall_mem_cons, List.exists_mem_cons_iff]
    by_cases hm : java.Unimplemented m
    · by_cases heq : m.signature = r.signature
      · have hkept : (if cls = m.declaringClass then m else r).signature = r.signature := by
          split_ifs
          · exact heq
          · rfl
        rw [functionalMethod_next hm heq]
        rcases ih (if cls = m.declaringClass then m else r) with ⟨hr, hall⟩ | ⟨hr, hex⟩
        · rw [hkept] at hr hall
          exact .inl ⟨hr, fun _ ↦ heq, hall⟩
        · rw [hkept] at hex
          exact .inr ⟨hr, .inr hex⟩
      · exact .inr ⟨functionalMethod_differs hm heq, .inl ⟨hm, heq⟩⟩
    · rw [functionalMethod_skip hm]
      rcases ih r with ⟨hr, hall⟩ | ⟨hr, hex⟩
      · exact .inl ⟨hr, fun h ↦ absurd h hm, hall⟩
      · exact .inr ⟨hr, .inr hex⟩

theorem functionalMethod_filter (result : Option (InterfaceMethod Cls)) :
    java.functionalMethod cls (ms.filter java.Unimplemented) result =
      java.functionalMethod cls ms result := by
  induction ms generalizing result with
  | nil => rfl
  | cons m ms ih =>
    by_cases hm : java.Unimplemented m
    · rw [List.filter_cons_of_pos (by simpa using hm)]
      cases result with
      | none => rw [functionalMethod_first hm, functionalMethod_first hm, ih]
      | some r =>
        by_cases heq : m.signature = r.signature
        · rw [functionalMethod_next hm heq, functionalMethod_next hm heq, ih]
        · rw [functionalMethod_differs hm heq, functionalMethod_differs hm heq]
    · rw [List.filter_cons_of_neg (by simpa using hm), functionalMethod_skip hm, ih]

/-- A class is taken for a functional interface exactly if it is one, and the method found is then
the one to implement. -/
theorem getFunctionalInterfaceMethod_spec (java : InterfaceReflection Cls) (cls : Cls) :
    java.IsFunctional cls ∧ (∃ r, java.getFunctionalInterfaceMethod cls = some r ∧
        ∀ m ∈ java.getMethods cls, java.Unimplemented m → m.signature = r.signature) ∨
      ¬ java.IsFunctional cls ∧ java.getFunctionalInterfaceMethod cls = none := by
  by_cases hkind : java.isInterface cls = true ∧ java.isAnnotation cls = false ∧
      java.isSealed cls = false
  · obtain ⟨hinterface, hannotation, hsealed⟩ := hkind
    have hget : java.getFunctionalInterfaceMethod cls =
        java.functionalMethod cls ((java.getMethods cls).filter java.Unimplemented) none := by
      rw [functionalMethod_filter, getFunctionalInterfaceMethod, hinterface, hannotation, hsealed]
      rfl
    have hmem : ∀ m, m ∈ (java.getMethods cls).filter java.Unimplemented ↔
        m ∈ java.getMethods cls ∧ java.Unimplemented m := fun m ↦ by
      rw [List.mem_filter, decide_eq_true_iff]
    rcases hfilter : (java.getMethods cls).filter java.Unimplemented with _ | ⟨m₀, rest⟩
    · rw [hfilter] at hmem hget
      refine .inr ⟨fun h ↦ ?_, hget⟩
      obtain ⟨m, hm, hun⟩ := h.exists_unimplemented
      exact nomatch (hmem m).2 ⟨hm, hun⟩
    · rw [hfilter] at hmem hget
      have hm₀ := (hmem m₀).1 List.mem_cons_self
      rw [functionalMethod_first hm₀.2] at hget
      rcases functionalMethod_some java cls rest m₀ with
        ⟨hr, hall⟩ | ⟨hr, m₁, hm₁, hun, hne⟩
      · have hsame : ∀ m ∈ java.getMethods cls, java.Unimplemented m →
            m.signature = m₀.signature := fun m hm hun ↦ by
          rcases List.mem_cons.1 ((hmem m).2 ⟨hm, hun⟩) with rfl | hm
          · rfl
          · exact hall m hm hun
        obtain ⟨r, hr, hsig⟩ := Option.map_eq_some_iff.1 hr
        refine .inl ⟨⟨hinterface, hannotation, hsealed, ⟨m₀, hm₀⟩, fun m₁ hm₁ m₂ hm₂ h₁ h₂ ↦ ?_⟩,
          r, hget.trans hr, fun m hm hun ↦ (hsame m hm hun).trans hsig.symm⟩
        exact (hsame m₁ hm₁ h₁).trans (hsame m₂ hm₂ h₂).symm
      · refine .inr ⟨fun h ↦ hne ?_, hget.trans hr⟩
        have hm₁ := (hmem m₁).1 (List.mem_cons_of_mem m₀ hm₁)
        exact h.signature_eq m₁ hm₁.1 m₀ hm₀.1 hm₁.2 hm₀.2
  · refine .inr ⟨fun h ↦ hkind ⟨h.isInterface, h.not_isAnnotation, h.not_isSealed⟩, ?_⟩
    rw [getFunctionalInterfaceMethod, if_pos]
    simp only [Bool.or_eq_true, Bool.not_eq_true']
    by_contra hnot
    simp only [not_or, Bool.not_eq_true, Bool.not_eq_false] at hnot
    exact hkind ⟨hnot.1.1, hnot.1.2, hnot.2⟩

theorem IsFunctional.interfaceParameterCount_eq (h : java.IsFunctional cls)
    (hm : m ∈ java.getMethods cls) (hun : java.Unimplemented m) :
    java.interfaceParameterCount cls = m.getParameterCount := by
  rcases getFunctionalInterfaceMethod_spec java cls with ⟨-, r, hr, hsig⟩ | ⟨hnot, -⟩
  · rw [interfaceParameterCount, hr]
    exact congrArg Nat.cast (InterfaceMethod.getParameterCount_eq (hsig m hm hun)).symm
  · exact absurd h hnot

end InterfaceReflection

/-! ### How Python binds a call -/

/-- Why Python refuses to bind a call. -/
inductive BindingError where
  | tooManyPositional
  | missingPositional
  | missingKeywordOnly
  deriving DecidableEq, Repr

/-- The variables of a function after its arguments are bound. A `**kwargs` is empty in a call
without keywords and left out. -/
structure Locals (V : Type) where
  positional : List V
  varargs : List V
  keywordOnly : List V

/-- A Python function, with what its code object says of its parameters. -/
structure PyFunction (V : Type) where
  /-- The positional parameters, the positional-only ones among them. -/
  coArgcount : ℕ
  coFlags : ℕ
  /-- `__defaults__`: a tuple, or `None` -/
  defaults : Option (List V)
  /-- The keyword-only parameters with their defaults. -/
  kwdefaults : List (Option V)

/-- `CO_VARARGS` -/
def coVarargs : ℕ := 0x0004

namespace PyFunction

variable {V : Type} (f : PyFunction V)

/-- Whether the function has `*args`. -/
def isVarargs : Bool :=
  f.coFlags &&& coVarargs = coVarargs

/-- The number of defaults; `None` has none. -/
def optional : ℕ :=
  (f.defaults.getD []).length

/-- The default of the positional parameter `i`: the defaults belong to the last parameters. -/
def default? (i : ℕ) : Option V :=
  if f.coArgcount ≤ i + f.optional then (f.defaults.getD [])[i + f.optional - f.coArgcount]?
  else none

/-- The value of the positional parameter `i`. -/
def slot (args : List V) (i : ℕ) : Except BindingError V :=
  match args[i]? with
  | some v => .ok v
  | none =>
    match f.default? i with
    | some v => .ok v
    | none => .error .missingPositional

/-- A keyword-only parameter in a call without keywords. -/
def keyword : Option V → Except BindingError V
  | some v => .ok v
  | none => .error .missingKeywordOnly

/-- The binding of a call with positional arguments, as the language reference has it. -/
def bind (args : List V) : Except BindingError (Locals V) := do
  if f.coArgcount < args.length && !f.isVarargs then throw .tooManyPositional
  let positional ← (List.range f.coArgcount).mapM (f.slot args)
  let keywordOnly ← f.kwdefaults.mapM keyword
  return ⟨positional, args.drop f.coArgcount, keywordOnly⟩

theorem isOk_slot_iff {args : List V} {i : ℕ} (hi : i < f.coArgcount) :
    (f.slot args i).isOk = true ↔ i < args.length ∨ f.coArgcount ≤ i + f.optional := by
  rw [slot]
  rcases Nat.lt_or_ge i args.length with hlt | hge
  · rw [List.getElem?_eq_getElem hlt]
    exact iff_of_true rfl (.inl hlt)
  · rw [List.getElem?_eq_none hge, default?, or_iff_right (Nat.not_lt.2 hge)]
    by_cases hdefault : f.coArgcount ≤ i + f.optional
    · have hindex : i + f.optional - f.coArgcount < (f.defaults.getD []).length := by
        show _ < f.optional
        omega
      rw [if_pos hdefault, List.getElem?_eq_getElem hindex]
      exact iff_of_true rfl hdefault
    · rw [if_neg hdefault]
      exact iff_of_false Bool.false_ne_true hdefault

/-- A call binds exactly if there are not too many arguments and not too few. -/
theorem isOk_bind_iff (hkw : ∀ d ∈ f.kwdefaults, d.isSome = true) (args : List V) :
    (f.bind args).isOk = true ↔ (f.isVarargs = true ∨ args.length ≤ f.coArgcount) ∧
      f.coArgcount ≤ args.length + f.optional := by
  have hkeyword : (f.kwdefaults.mapM keyword).isOk = true := by
    refine Foundation.isOk_mapM_iff.2 fun d hd ↦ ?_
    obtain ⟨v, rfl⟩ := Option.isSome_iff_exists.1 (hkw d hd)
    rfl
  have hslots : ((List.range f.coArgcount).mapM (f.slot args)).isOk = true ↔
      f.coArgcount ≤ args.length + f.optional := by
    rw [Foundation.isOk_mapM_iff]
    constructor
    · -- the first parameter without an argument has a default
      intro h
      by_contra hfew
      have hmem : args.length ∈ List.range f.coArgcount := List.mem_range.2 (by omega)
      rcases (f.isOk_slot_iff (List.mem_range.1 hmem)).1 (h _ hmem) with hlt | hle
      · exact absurd hlt (Nat.lt_irrefl _)
      · exact hfew hle
    · intro h i hi
      refine (f.isOk_slot_iff (List.mem_range.1 hi)).2 ?_
      omega
  rw [← hslots, bind]
  by_cases hmany : f.coArgcount < args.length ∧ f.isVarargs = false
  · rw [if_pos (by simpa using hmany)]
    refine iff_of_false Bool.false_ne_true fun h ↦ ?_
    rcases h.1 with hvar | hle
    · exact absurd hmany.2 (by rw [hvar]; decide)
    · exact absurd hmany.1 (Nat.not_lt.2 hle)
  · rw [if_neg (by simpa using hmany)]
    have hnot : f.isVarargs = true ∨ args.length ≤ f.coArgcount := by
      rw [not_and_or, Bool.not_eq_false, Nat.not_lt] at hmany
      exact hmany.symm
    rw [and_iff_right hnot]
    rcases (List.range f.coArgcount).mapM (f.slot args) with e | positional
    · exact iff_of_false Bool.false_ne_true Bool.false_ne_true
    · obtain ⟨keywordOnly, hk⟩ : ∃ ks, f.kwdefaults.mapM keyword = .ok ks := by
        rcases hk : f.kwdefaults.mapM keyword with e | ks
        · rw [hk] at hkeyword
          exact nomatch hkeyword
        · exact ⟨ks, rfl⟩
      rw [hk]
      exact iff_of_true rfl rfl

end PyFunction

/-! ### Matching -/

/-- A Python callable. -/
inductive PyCallable (V : Type) where
  | function (f : PyFunction V)
  /-- A bound method, with its receiver. -/
  | method (func : PyCallable V) (receiver : V)
  /-- A callable of another kind, with the calls that it accepts. -/
  | other (accepts : List V → Bool)

/-- A failure of the native code. -/
inductive NativeFault where
  /-- A null pointer is dereferenced. -/
  | nullPointer
  deriving DecidableEq, Repr

namespace PyCallable

variable {V : Type}

/-- Whether a call binds. A bound method puts its receiver before the arguments. -/
def binds : PyCallable V → List V → Bool
  | .function f, args => (f.bind args).isOk
  | .method func receiver, args => func.binds (receiver :: args)
  | .other accepts, args => accepts args

/-- No keyword-only parameter is required. -/
def NoRequiredKeyword : PyCallable V → Prop
  | .function f => ∀ d ∈ f.kwdefaults, d.isSome = true
  | .method func _ => func.NoRequiredKeyword
  | .other _ => True

/-- `PyFunction_GetCode`: null for anything but a function. -/
def getCode : PyCallable V → Option (PyFunction V)
  | .function f => some f
  | _ => none

/-- A bound method over something that is not a function. -/
def WrapsNonFunction : PyCallable V → Prop
  | .method (.function _) _ => False
  | .method _ _ => True
  | _ => False

end PyCallable

/-- The two comparisons of `JPConversionFunctional::matches`, for a code object that leaves `args`
positional parameters to the call. -/
def PyFunction.window {V : Type} (code : PyFunction V) (args jargs : ℤ) : MatchType :=
  -- too few arguments
  if !code.isVarargs ∧ args < jargs then .none
  -- too many arguments
  else if args - code.optional > jargs then .none
  else .implicit

/-- `JPConversionFunctional::matches`, for an interface whose method has `jargs` parameters. An
object that is not callable is `none`. -/
def functionalMatches {V : Type} (jargs : ℤ) : Option (PyCallable V) → Except NativeFault MatchType
  | none => .ok .none
  | some (.function f) => .ok (f.window f.coArgcount jargs)
  | some (.method func _) =>
    match func.getCode with
    | none => .error .nullPointer
    -- the receiver is never null
    | some code => .ok (code.window (code.coArgcount - 1) jargs)
  | some (.other _) => .ok .implicit

theorem PyFunction.window_eq_implicit_iff {V : Type} (code : PyFunction V) (args jargs : ℤ) :
    code.window args jargs ≠ .none ↔
      (code.isVarargs = true ∨ jargs ≤ args) ∧ args ≤ jargs + code.optional := by
  rw [window]
  split_ifs with hfew hmany
  · refine iff_of_false (fun h ↦ h rfl) fun h ↦ ?_
    rcases h.1 with hvar | hle
    · exact absurd hfew.1 (by rw [hvar]; decide)
    · exact absurd hfew.2 (Int.not_lt.2 hle)
  · refine iff_of_false (fun h ↦ h rfl) fun h ↦ ?_
    have hle := h.2
    omega
  · refine iff_of_true (by decide) ⟨?_, by omega⟩
    rw [not_and_or, Bool.not_eq_true', Bool.not_eq_false, Int.not_lt] at hfew
    exact hfew

namespace InterfaceReflection

variable {Cls V : Type} [DecidableEq Cls] (java : InterfaceReflection Cls)

/-- Matching decides, and accepts a function or a bound method exactly if a call with `n` arguments
binds; it accepts any other callable. -/
def AgreesWithBinding (cls : Cls) (n : ℕ) (c : PyCallable V) : Prop :=
  ∃ t, functionalMatches (java.interfaceParameterCount cls) (some c) = .ok t ∧
    match c with
    | .other _ => t ≠ .none
    | _ => ∀ args : List V, args.length = n → (t ≠ .none ↔ c.binds args = true)

variable {java} {cls : Cls} {m : InterfaceMethod Cls}

theorem agreesWithBinding_iff (hcls : java.IsFunctional cls) (hm : m ∈ java.getMethods cls)
    (hun : java.Unimplemented m) (c : PyCallable V) (hc : c.NoRequiredKeyword) :
    java.AgreesWithBinding cls m.getParameterCount c ↔ ¬ c.WrapsNonFunction := by
  rw [AgreesWithBinding, hcls.interfaceParameterCount_eq hm hun]
  match c with
  | .function f =>
    refine iff_of_true ⟨_, rfl, fun args hargs ↦ ?_⟩ id
    show _ ↔ (f.bind args).isOk = true
    rw [f.isOk_bind_iff hc, PyFunction.window_eq_implicit_iff, hargs]
    exact Iff.and (Iff.or Iff.rfl (by omega)) (by omega)
  | .method (.function f) receiver =>
    refine iff_of_true ⟨_, rfl, fun args hargs ↦ ?_⟩ id
    show _ ↔ (f.bind (receiver :: args)).isOk = true
    rw [f.isOk_bind_iff hc, PyFunction.window_eq_implicit_iff, List.length_cons, hargs]
    exact Iff.and (Iff.or Iff.rfl (by omega)) (by omega)
  | .method (.method func _) receiver =>
    exact iff_of_false (fun ⟨_, h, _⟩ ↦ nomatch h) fun h ↦ h trivial
  | .method (.other _) receiver =>
    exact iff_of_false (fun ⟨_, h, _⟩ ↦ nomatch h) fun h ↦ h trivial
  | .other _ => exact iff_of_true ⟨_, rfl, fun h ↦ nomatch h⟩ id

/-- `java.util.function.Consumer`, its class being `0` and `Object` being `1`. -/
def consumer : InterfaceReflection ℕ where
  isInterface := fun _ ↦ true
  isAnnotation := fun _ ↦ false
  isSealed := fun _ ↦ false
  getMethods := fun _ ↦ [⟨"accept", [1], 0, true⟩, ⟨"andThen", [0], 0, false⟩]
  objectMethods := [⟨"equals", [1], 1, false⟩, ⟨"hashCode", [], 1, false⟩,
    ⟨"toString", [], 1, false⟩]

theorem isFunctional_consumer : consumer.IsFunctional 0 := by
  rcases getFunctionalInterfaceMethod_spec consumer 0 with ⟨h, -⟩ | ⟨-, h⟩
  · exact h
  · exact absurd (congrArg Option.isSome h) (by decide)

/-- `def f(x, y=None)` can be a `Consumer`. -/
theorem agreesWithBinding_consumer :
    consumer.AgreesWithBinding 0 1 (.function ⟨2, 0, some [0], []⟩ : PyCallable ℕ) :=
  (agreesWithBinding_iff isFunctional_consumer List.mem_cons_self ⟨rfl, rfl⟩
    (.function ⟨2, 0, some [0], []⟩) (List.forall_mem_nil _)).2 id

/-- `types.MethodType(print, 7)` is a bound method without a function under it. -/
theorem not_agreesWithBinding : consumer.IsFunctional 0 ∧
    (.method (.other fun _ ↦ true) 7 : PyCallable ℕ).NoRequiredKeyword ∧
    ¬ consumer.AgreesWithBinding 0 1 (.method (.other fun _ ↦ true) 7 : PyCallable ℕ) :=
  ⟨isFunctional_consumer, trivial, fun ⟨_, h, _⟩ ↦ nomatch h⟩

end InterfaceReflection
end JPype
