import JPype.Foundation.Worklist
import Mathlib.Algebra.GroupWithZero.Nat
import Mathlib.Logic.Function.Basic

/-!
# Customizers

A prototype class registered for a Java class lends its members to the Python class of it. What is
registered before the class is created is applied by `applyCustomizers` to the table from which
the class is made, and `applyInitializer` then runs the `__jclass_init__` functions of the class
and its bases. What is registered later is applied by `_applyCustomizerPost` to the class itself.

The dictionary of a class is modelled without its entry `__jclass_init__`, which is kept apart.
Calling a `__jclass_init__` changes the dictionary of the class that it is given.
-/

namespace JPype

open Foundation

/-- An entry in the dictionary of a class: `_JField`, `_JMethod`, or anything else. -/
inductive Attribute (Py : Type) where
  | jField (name : String)
  | jMethod (name : String)
  | python (value : Py)
  deriving DecidableEq, Repr

/-- The dictionary of a class. -/
abbrev AttributeTable (Py : Type) := String → Option (Attribute Py)

/-- The keywords of `JOverride`, as far as they are asked for. -/
structure JOverride where
  sticky : Bool
  rename : Option String
  deriving DecidableEq, Repr

/-- A member of a prototype that is callable or a string, property, static or class method. -/
structure ProtoMember (Py : Type) where
  name : String
  value : Py
  joverride : Option JOverride
  deriving DecidableEq, Repr

/-- The members of a prototype class that are copied, in order, and its `__jclass_init__`. -/
structure Prototype (Py Hook : Type) where
  members : List (ProtoMember Py)
  jclassInit : Option Hook

/-- The function `init` that is installed as `__jclass_init__`, with what it has captured. -/
inductive InitFunction (Py Hook : Type) where
  | init (inits : List Hook) (sticky : List (ProtoMember Py))
  | chain (prev : InitFunction Py Hook) (inits : List Hook) (sticky : List (ProtoMember Py))

/-- The Java classes as Python sees them, and what a hook does. `mro` has all classes that are
derived from, each once. -/
structure Hierarchy (Cls Py Hook : Type) where
  bases : Cls → List Cls
  mro : Cls → List Cls
  mem_mro : ∀ c d, d ∈ mro c ↔ Relation.ReflTransGen (fun a b ↦ b ∈ bases a) c d
  nodup_mro : ∀ c, (mro c).Nodup
  /-- The table from which a class is made before any customizer is applied. -/
  javaMembers : Cls → AttributeTable Py
  /-- The public inner classes, which are attached at the end. -/
  innerClasses : Cls → List (String × Attribute Py)
  callHook : Hook → Cls → AttributeTable Py → AttributeTable Py

/-- A class that has been created. -/
structure ClassObject (Py Hook : Type) where
  dict : AttributeTable Py
  jclassInit : Option (InitFunction Py Hook)

/-- What is registered, the classes that have been created, in order, and these. The flag
`instantiated` of the hints of a class is set by its creation. -/
structure Customization (Cls Py Hook : Type) where
  implementations : Cls → List (Prototype Py Hook)
  classes : List Cls
  object : Cls → ClassObject Py Hook

/-- A registration, or the creation of a class. -/
inductive CustomizerEvent (Cls Py Hook : Type) where
  | register (target : Cls) (proto : Prototype Py Hook)
  | create (c : Cls)

variable {Cls Py Hook : Type}

/-- `_customize`, and an assignment to the table of members. -/
def setAttribute (name : String) (value : Attribute Py) (dict : AttributeTable Py) :
    AttributeTable Py :=
  Function.update dict name (some value)

/-! ### Applying a prototype -/

/-- The body of the loop of `_applyStickyMethods`. -/
def applyStickyMethod (method : ProtoMember Py) (dict : AttributeTable Py) : AttributeTable Py :=
  let dict :=
    match method.joverride.bind (·.rename), dict method.name with
    | some rename, some (.jMethod orig) =>
      if rename = "" then dict else setAttribute rename (.jMethod orig) dict
    | _, _ => dict
  setAttribute method.name (.python method.value) dict

/-- `_applyStickyMethods` -/
def applyStickyMethods (sticky : List (ProtoMember Py)) (dict : AttributeTable Py) :
    AttributeTable Py :=
  sticky.foldl (fun dict method ↦ applyStickyMethod method dict) dict

/-- The body of the loop of `_applyCustomizerImpl`, for a member that is copied. -/
def applyMember (s : AttributeTable Py × List (ProtoMember Py)) (member : ProtoMember Py) :
    AttributeTable Py × List (ProtoMember Py) :=
  match member.joverride with
  | none => (setAttribute member.name (.python member.value) s.1, s.2)
  | some override =>
    if override.sticky then (s.1, s.2 ++ [member])
    else
      let rename := override.rename.getD ("_" ++ member.name)
      let dict :=
        match s.1 member.name with
        | some (.jField field) => setAttribute rename (.jField field) s.1
        | some (.jMethod method) => setAttribute rename (.jMethod method) s.1
        | _ => s.1
      (setAttribute member.name (.python member.value) dict, s.2)

/-- `_applyCustomizerImpl`: the table with the members set, and the two lists with the sticky
methods and the hook added. -/
def applyCustomizerImpl (dict : AttributeTable Py) (proto : Prototype Py Hook)
    (sticky : List (ProtoMember Py)) (inits : List Hook) :
    AttributeTable Py × List (ProtoMember Py) × List Hook :=
  let (dict, sticky) := proto.members.foldl applyMember (dict, sticky)
  (dict, sticky, inits ++ proto.jclassInit.toList)

namespace Hierarchy

variable (H : Hierarchy Cls Py Hook)

/-- Calling an `init` function. -/
def callInit : InitFunction Py Hook → Cls → AttributeTable Py → AttributeTable Py
  | .init inits sticky, cls, dict =>
    applyStickyMethods sticky (inits.foldl (fun dict m ↦ H.callHook m cls dict) dict)
  | .chain prev inits sticky, cls, dict =>
    applyStickyMethods sticky
      (inits.foldl (fun dict m ↦ H.callHook m cls dict) (callInit prev cls dict))

variable [DecidableEq Cls]

/-- `__subclasses__` -/
def subclasses (classes : List Cls) (c : Cls) : List Cls :=
  classes.filter fun d ↦ c ∈ H.bases d

/-- A class with another dictionary. -/
def setDict (s : Customization Cls Py Hook) (c : Cls) (dict : AttributeTable Py) :
    Customization Cls Py Hook :=
  { s with object := Function.update s.object c { s.object c with dict := dict } }

/-- The worklist of `_applyAll`. It takes at most one round for each subclass that is put there,
one for the class itself, and one to leave it. -/
def derived (classes : List Cls) (cls : Cls) : List Cls :=
  (iterate (visit (H.subclasses classes))
    ((classes.map fun c ↦ (H.subclasses classes c).length).sum + 2) ([cls], [])).getD []

/-- `_applyAll` -/
def applyAll (s : Customization Cls Py Hook) (cls : Cls) (hook : Hook) :
    Customization Cls Py Hook :=
  (H.derived s.classes cls).foldl (fun s c ↦ setDict s c (H.callHook hook c (s.object c).dict)) s

/-- `_applyCustomizerPost` -/
def applyCustomizerPost (s : Customization Cls Py Hook) (cls : Cls) (proto : Prototype Py Hook) :
    Customization Cls Py Hook :=
  let (dict, sticky, inits) := applyCustomizerImpl (s.object cls).dict proto [] []
  let jclassInit :=
    if 0 < sticky.length ∨ 0 < inits.length then
      match (s.object cls).jclassInit with
      | none => some (.init inits sticky)
      | some prev => some (.chain prev inits sticky)
    else (s.object cls).jclassInit
  let s := { s with object := Function.update s.object cls ⟨dict, jclassInit⟩ }
  match proto.jclassInit with
  | none => s
  | some method => H.applyAll s cls method

/-- `registerClassImplementation` -/
def registerClassImplementation (s : Customization Cls Py Hook) (target : Cls)
    (proto : Prototype Py Hook) : Customization Cls Py Hook :=
  let s := { s with
    implementations := Function.update s.implementations target
      (s.implementations target ++ [proto]) }
  if target ∈ s.classes then H.applyCustomizerPost s target proto else s

/-- The implementations part of `applyCustomizers`: the class as it is made. -/
def applyCustomizers (members : AttributeTable Py) (implementations : List (Prototype Py Hook)) :
    ClassObject Py Hook :=
  let (dict, sticky, inits) := implementations.foldl
    (fun (members, sticky, inits) proto ↦ applyCustomizerImpl members proto sticky inits)
    (members, [], [])
  ⟨dict, if 0 < sticky.length ∨ 0 < inits.length then some (.init inits sticky) else none⟩

/-- `applyInitializer`: the dictionary after the functions of the bases, the most basic first. -/
def applyInitializer (object : Cls → ClassObject Py Hook) (cls : Cls) : AttributeTable Py :=
  let init := (H.mro cls).foldl (fun init base ↦ (object base).jclassInit.toList ++ init) []
  init.foldl (fun dict func ↦ H.callInit func cls dict) (object cls).dict

/-- The creation of a class: `_jclassPre`, the type, and `_jclassPost`. -/
def create (s : Customization Cls Py Hook) (c : Cls) : Customization Cls Py Hook :=
  let object := Function.update s.object c
    (applyCustomizers (H.javaMembers c) (s.implementations c))
  let s := { s with object := object, classes := s.classes ++ [c] }
  let s := setDict s c (H.applyInitializer object c)
  setDict s c ((H.innerClasses c).foldl (fun dict (name, wrapper) ↦ setAttribute name wrapper dict)
    (s.object c).dict)

/-- One event. -/
def step (s : Customization Cls Py Hook) : CustomizerEvent Cls Py Hook →
    Customization Cls Py Hook
  | .register target proto => H.registerClassImplementation s target proto
  | .create c => H.create s c

end Hierarchy

/-- Before anything is registered or created. -/
def Customization.initial : Customization Cls Py Hook where
  implementations _ := []
  classes := []
  object _ := ⟨fun _ ↦ none, none⟩

end JPype
