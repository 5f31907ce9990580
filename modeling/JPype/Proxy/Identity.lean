import Mathlib.Data.Int.ModEq
import Mathlib.Data.Set.Basic

/-!
# `equals` and `hashCode` of a proxy

A call of `equals` or `hashCode` on the Java instance of a proxy ends in `PyJPProxy_equals` or
`PyJPProxy_hash`. The first compares the proxy, the second hashes its target, and a proxy that is
an argument comes as its target where its `convert` is set. The contract of `java.lang.Object`
holds of a set of proxies exactly if each converted proxy is equal to its target, and equal proxies
hash alike what they hash (`equalsContract_iff`).
-/

namespace JPype

/-- The contract of `Object.equals` and `Object.hashCode` on the objects of `S`. The relation is
given by its answers, so that calls without an answer agree as well. -/
structure EqualsContract {α β : Type*} (equals : α → α → Option Bool) (hashCode : α → Option β)
    (S : Set α) : Prop where
  refl : ∀ p ∈ S, equals p p = some true
  symm : ∀ p ∈ S, ∀ q ∈ S, equals p q = equals q p
  hashCode_eq : ∀ p ∈ S, ∀ q ∈ S, equals p q = some true → hashCode p = hashCode q

/-- The Python objects. `defines` is about the attributes that come from the object or from a class
of the user, and not from `_JProxy`. -/
structure PythonObjects (Obj : Type*) where
  defines : Obj → String → Bool
  eq : Obj → Obj → Bool
  hash : Obj → ℤ
  eq_refl : ∀ x, eq x x = true
  eq_symm : ∀ x y, eq x y = eq y x
  eq_trans : ∀ x y z, eq x y = true → eq y z = true → eq x z = true
  hash_eq : ∀ x y, eq x y = true → hash x = hash y

/-- Which subclass of `JPProxy` a proxy has. -/
inductive ProxyKind where
  | direct
  | indirect
  | functional (method : String)
  deriving DecidableEq, Repr

/-- `PyJPProxy`, with `none` for `Py_None`. -/
structure PyJPProxy (Obj : Type*) where
  object : Obj
  target : Option Obj
  dispatch : Option Obj
  convert : Bool
  /-- The class of `m_Proxy`. -/
  proxyKind : ProxyKind
  deriving DecidableEq

/-- What `getCallable` finds: a method of `_JProxy`, bound to the proxy, or an attribute. -/
inductive Callable (Obj : Type*) where
  | method (name : String)
  | attribute (owner : Obj) (name : String)
  deriving DecidableEq

namespace PyJPProxy

variable {Obj : Type*}

/-- `PyJPProxy_new` -/
def new (object : Obj) (inst dispatch : Option Obj) (convert : Bool) : PyJPProxy Obj where
  object := object
  target := inst
  dispatch := dispatch
  convert := convert
  proxyKind := if dispatch = none then .direct else .indirect

/-- `proxyMethods` -/
def proxyMethods : List String := ["equals", "hashCode", "toString"]

/-- `JPProxyType::convertToPythonObject` -/
def convertToPythonObject (p : PyJPProxy Obj) : Obj :=
  match p.convert, p.target with
  | true, some target => target
  | _, _ => p.object

/-- The object that `PyJPProxy_hash` hashes. -/
def hashed (p : PyJPProxy Obj) : Obj :=
  p.target.getD p.object

end PyJPProxy

/-- The ways to make a proxy: an instance of a class with `@JImplements`, a `JProxy` over a
dictionary, with or without an instance, a `JProxy` over an instance, and the conversion of a
callable to a functional interface, whose method has the name `method`. -/
inductive ProxyDeclaration (Obj : Type*) where
  | implements
  | dict (fromDict : Obj) (inst : Option Obj) (convert : Bool)
  | inst (inst : Obj) (convert : Bool)
  | functional (callable : Obj) (method : String)
  deriving DecidableEq

/-- The proxy of a declaration, which is the Python object `object`. -/
def ProxyDeclaration.make {Obj : Type*} (object : Obj) : ProxyDeclaration Obj → PyJPProxy Obj
  | .implements => .new object none none false
  | .dict fromDict target convert => .new object target (some fromDict) convert
  | .inst target convert => .new object (some target) (some target) convert
  | .functional callable method =>
    { object := object
      target := some callable
      dispatch := some callable
      convert := true
      proxyKind := .functional method }

namespace PythonObjects

variable {Obj : Type*} [DecidableEq Obj] (w : PythonObjects Obj)

/-- `PyObject_GetAttrString` on an object that is not a proxy. -/
def getAttr (x : Obj) (name : String) : Option (Callable Obj) :=
  if w.defines x name then some (.attribute x name) else none

/-- `PyObject_GetAttrString` on a proxy. -/
def getProxyAttr (p : PyJPProxy Obj) (name : String) : Option (Callable Obj) :=
  if w.defines p.object name then some (.attribute p.object name)
  else if name ∈ PyJPProxy.proxyMethods then some (.method name)
  else none

/-- `JPProxy::getCallable`: what is called for a name, and whether the target goes first. -/
def getCallable (p : PyJPProxy Obj) (cname : String) : Option (Callable Obj) × Bool :=
  match p.proxyKind with
  | .direct => (w.getProxyAttr p cname, false)
  | .indirect =>
    match p.dispatch.bind (w.getAttr · cname) with
    | some out => (some out, p.dispatch ≠ p.target ∧ p.target ≠ none)
    | none => (w.getProxyAttr p cname, false)
  | .functional method =>
    if cname = method then (p.dispatch.map (.attribute · "__call__"), false)
    else (w.getProxyAttr p cname, false)

/-- `PyJPProxy_equals` -/
def proxyEquals (p : PyJPProxy Obj) (other : Obj) : Bool :=
  w.eq p.object other

/-- `(int) PyObject_Hash(x)` -/
def intHash (x : Obj) : ℤ :=
  (w.hash x).bmod (2 ^ 32)

/-- `PyJPProxy_hash` -/
def proxyHash (p : PyJPProxy Obj) : ℤ :=
  match p.target with
  | some target => w.intHash target
  | none => w.intHash p.object

/-- `p.equals(q)` in Java; there is no answer where the method is one of the user. -/
def javaEquals (p q : PyJPProxy Obj) : Option Bool :=
  if w.getCallable p "equals" = (some (.method "equals"), false) then
    some (w.proxyEquals p q.convertToPythonObject)
  else none

/-- `p.hashCode()` in Java. -/
def javaHashCode (p : PyJPProxy Obj) : Option ℤ :=
  if w.getCallable p "hashCode" = (some (.method "hashCode"), false) then some (w.proxyHash p)
  else none

/-- A proxy of any kind. Neither the class of the proxy, nor the object that its names are looked
up in, defines `equals` or `hashCode`. -/
structure PlainProxy where
  object : Obj
  declaration : ProxyDeclaration Obj
  plain : ∀ name ∈ ["equals", "hashCode"],
    w.defines object name = false ∧
      match declaration with
      | .implements => True
      | .dict fromDict _ _ => w.defines fromDict name = false
      | .inst target _ => w.defines target name = false
      | .functional _ method => name ≠ method

namespace PlainProxy

variable {w}

/-- The `PyJPProxy` of a proxy. -/
def proxy (p : w.PlainProxy) : PyJPProxy Obj :=
  p.declaration.make p.object

theorem getCallable_proxy (p : w.PlainProxy) {name : String} (h : name ∈ ["equals", "hashCode"]) :
    w.getCallable p.proxy name = (some (.method name), false) := by
  have hmem : name ∈ PyJPProxy.proxyMethods := by
    rw [PyJPProxy.proxyMethods]
    exact List.mem_append_left ["toString"] h
  obtain ⟨object, declaration, plain⟩ := p
  obtain ⟨hobject, hdecl⟩ := plain name h
  have hattr : ∀ q : PyJPProxy Obj, q.object = object →
      w.getProxyAttr q name = some (.method name) := by
    rintro q rfl
    rw [getProxyAttr, hobject, if_neg Bool.false_ne_true, if_pos hmem]
  cases declaration with
  | implements => exact congrArg (·, false) (hattr _ rfl)
  | dict fromDict target convert =>
    have hnone : w.getAttr fromDict name = none := by
      rw [getAttr, show w.defines fromDict name = false from hdecl, if_neg Bool.false_ne_true]
    simp [getCallable, proxy, ProxyDeclaration.make, PyJPProxy.new, hnone, hattr]
  | inst target convert =>
    have hnone : w.getAttr target name = none := by
      rw [getAttr, show w.defines target name = false from hdecl, if_neg Bool.false_ne_true]
    simp [getCallable, proxy, ProxyDeclaration.make, PyJPProxy.new, hnone, hattr]
  | functional callable method =>
    have hne : name ≠ method := hdecl
    simp [getCallable, proxy, ProxyDeclaration.make, hne, hattr]

theorem javaEquals_proxy (p q : w.PlainProxy) :
    w.javaEquals p.proxy q.proxy =
      some (w.eq p.proxy.object q.proxy.convertToPythonObject) := by
  rw [javaEquals, if_pos (p.getCallable_proxy (by decide)), proxyEquals]

theorem javaHashCode_proxy (p : w.PlainProxy) :
    w.javaHashCode p.proxy = some (w.intHash p.proxy.hashed) := by
  rw [javaHashCode, if_pos (p.getCallable_proxy (by decide)), proxyHash, PyJPProxy.hashed]
  cases p.proxy.target <;> rfl

end PlainProxy

/-- Where a proxy hands out its target, the two are equal. -/
def IsOwnTarget (p : PyJPProxy Obj) : Prop :=
  p.convert = true → ∀ target, p.target = some target → w.eq p.object target = true

variable {w}

omit [DecidableEq Obj] in
theorem isOwnTarget_iff {p : PyJPProxy Obj} :
    w.IsOwnTarget p ↔ w.eq p.object p.convertToPythonObject = true := by
  obtain ⟨object, target, dispatch, convert, kind⟩ := p
  cases convert with
  | false => exact iff_of_true (fun h ↦ absurd h Bool.false_ne_true) (w.eq_refl _)
  | true =>
    cases target with
    | none => exact iff_of_true (fun _ _ h ↦ nomatch h) (w.eq_refl _)
    | some t => exact ⟨fun h ↦ h rfl t rfl, fun h _ u hu ↦ Option.some.inj hu ▸ h⟩

omit [DecidableEq Obj] in
theorem eq_congr_right {x y z : Obj} (h : w.eq y z = true) : w.eq x z = w.eq x y := by
  rw [Bool.eq_iff_iff]
  exact ⟨fun hxz ↦ w.eq_trans x z y hxz (w.eq_symm y z ▸ h), fun hxy ↦ w.eq_trans x y z hxy h⟩

omit [DecidableEq Obj] in
/-- A proxy without a target, or one that is equal to its target, has the hash of the proxy. -/
theorem intHash_hashed {p : PyJPProxy Obj}
    (h : ∀ target, p.target = some target → w.eq p.object target = true) :
    w.intHash p.hashed = w.intHash p.object := by
  rw [PyJPProxy.hashed]
  cases htarget : p.target with
  | none => rfl
  | some target => rw [Option.getD_some, intHash, intHash, w.hash_eq _ _ (h target htarget)]

/-- Where the proxies are their own targets, Java compares them as Python does. -/
theorem javaEquals_of_isOwnTarget (p : w.PlainProxy) {q : w.PlainProxy}
    (h : w.IsOwnTarget q.proxy) :
    w.javaEquals p.proxy q.proxy = some (w.eq p.proxy.object q.proxy.object) := by
  rw [p.javaEquals_proxy, eq_congr_right (isOwnTarget_iff.1 h)]

/-- A relation that comes from the comparison of Python has the contract, where the hashes agree. -/
theorem equalsContract_of_isOwnTarget {S : Set w.PlainProxy}
    (hown : ∀ p ∈ S, w.IsOwnTarget p.proxy)
    (hhash : ∀ p ∈ S, ∀ q ∈ S, w.eq p.proxy.object q.proxy.object = true →
      w.intHash p.proxy.hashed = w.intHash q.proxy.hashed) :
    EqualsContract (fun p q : w.PlainProxy ↦ w.javaEquals p.proxy q.proxy)
      (fun p ↦ w.javaHashCode p.proxy) S := by
  refine ⟨fun p hp ↦ ?_, fun p hp q hq ↦ ?_, fun p hp q hq heq ↦ ?_⟩
  · rw [javaEquals_of_isOwnTarget p (hown p hp), w.eq_refl]
  · rw [javaEquals_of_isOwnTarget p (hown q hq), javaEquals_of_isOwnTarget q (hown p hp),
      w.eq_symm]
  · rw [javaEquals_of_isOwnTarget p (hown q hq), Option.some.injEq] at heq
    rw [p.javaHashCode_proxy, q.javaHashCode_proxy, hhash p hp q hq heq]

/-- **The contract of `equals` and `hashCode`** holds of a set of proxies exactly if the converted
ones are equal to their targets, and equal proxies have targets with the same hash, where the
proxy stands for a target that it does not have. -/
theorem equalsContract_iff (S : Set w.PlainProxy) :
    EqualsContract (fun p q : w.PlainProxy ↦ w.javaEquals p.proxy q.proxy)
        (fun p ↦ w.javaHashCode p.proxy) S ↔
      (∀ p ∈ S, w.IsOwnTarget p.proxy) ∧
        ∀ p ∈ S, ∀ q ∈ S, w.eq p.proxy.object q.proxy.object = true →
          w.intHash p.proxy.hashed = w.intHash q.proxy.hashed := by
  refine ⟨fun h ↦ ?_, fun ⟨hown, hhash⟩ ↦ equalsContract_of_isOwnTarget hown hhash⟩
  have hown : ∀ p ∈ S, w.IsOwnTarget p.proxy := fun p hp ↦ by
    have hrefl := h.refl p hp
    rw [p.javaEquals_proxy, Option.some.injEq] at hrefl
    exact isOwnTarget_iff.2 hrefl
  refine ⟨hown, fun p hp q hq heq ↦ ?_⟩
  have hhash := h.hashCode_eq p hp q hq (by rw [javaEquals_of_isOwnTarget p (hown q hq), heq])
  rwa [p.javaHashCode_proxy, q.javaHashCode_proxy, Option.some.injEq] at hhash

/-- The proxies without a target, as the instances of classes with `@JImplements` are, and the ones
that are equal to their targets, honour the contract among each other. -/
theorem equalsContract_of_eq_target {S : Set w.PlainProxy}
    (h : ∀ p ∈ S, ∀ target, p.proxy.target = some target → w.eq p.proxy.object target = true) :
    EqualsContract (fun p q : w.PlainProxy ↦ w.javaEquals p.proxy q.proxy)
      (fun p ↦ w.javaHashCode p.proxy) S := by
  refine equalsContract_of_isOwnTarget (fun p hp _ ↦ h p hp) fun p hp q hq heq ↦ ?_
  rw [intHash_hashed (h p hp), intHash_hashed (h q hq), intHash, intHash, w.hash_eq _ _ heq]

/-- Objects that are equal only to themselves and define nothing. -/
def identities : PythonObjects ℕ where
  defines _ _ := false
  eq x y := x == y
  hash x := x
  eq_refl _ := beq_self_eq_true _
  eq_symm _ _ := BEq.comm
  eq_trans _ _ _ hxy hyz := beq_iff_eq.2 ((beq_iff_eq.1 hxy).trans (beq_iff_eq.1 hyz))
  hash_eq _ _ h := congrArg _ (beq_iff_eq.1 h)

/-- A callable, the object `1`, that has been converted to a `java.lang.Runnable`. -/
def runnable : identities.PlainProxy where
  object := 0
  declaration := .functional 1 "run"
  plain := by decide

/-- It is not equal to itself in Java. -/
theorem runnable_not_equalsContract :
    identities.javaEquals runnable.proxy runnable.proxy = some false ∧
      ¬EqualsContract (fun p q : identities.PlainProxy ↦ identities.javaEquals p.proxy q.proxy)
        (fun p ↦ identities.javaHashCode p.proxy) Set.univ := by
  have hfalse : identities.javaEquals runnable.proxy runnable.proxy = some false := by decide
  refine ⟨hfalse, fun h ↦ ?_⟩
  have htrue := h.refl runnable trivial
  rw [hfalse] at htrue
  cases htrue

end PythonObjects

end JPype
